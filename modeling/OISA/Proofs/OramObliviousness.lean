import OISA.Proofs.OramRuns

/-!
# What an access touches

Apart from its short-circuit tests an access touches cells that depend on the access leaf only.
-/

namespace OISA.Primitives

open OISA.Lib OISA.Lib.Traced

section Primitives

variable {ι : Type} [DecidableEq ι]

lemma sameLog_cmovTo (c c' : Bool) (v v' : ℤ) (a : ι) (i : ℕ) :
    SameLog (cmovTo c v a i) (cmovTo c' v' a i) := fun _ _ => rfl

lemma sameLog_cmovn (c c' : Bool) (a : ι) (i : ℕ) (b : ι) (j sz : ℕ) :
    SameLog (cmovn c a i b j sz) (cmovn c' a i b j sz) :=
  sameLog_forUpTo (fun _ => by intro _ _; rfl) sz

lemma sameLog_swapBlocks (arr : ι) (sz i j : ℕ) (s s' : Bool) :
    SameLog (swapBlocks arr sz i j s) (swapBlocks arr sz i j s') :=
  sameLog_forUpTo (fun _ => by intro _ _; rfl) sz

omit [DecidableEq ι] in
lemma sameLog_twoKeyTest (arr : ι) (k1 k2 sz : ℕ) (dir : Dir × Dir) (i j : ℕ) :
    SameLog (twoKeyTest arr k1 k2 sz dir i j) (twoKeyTest arr k1 k2 sz dir i j) :=
  fun _ _ => rfl

lemma sameLog_compAndSwapTwoArrayTwoKey (main aux : ι) (k1 k2 szMain szAux : ℕ)
    (dir : Dir × Dir) (i j : ℕ) :
    SameLog (compAndSwapTwoArrayTwoKey main aux k1 k2 szMain szAux dir i j)
      (compAndSwapTwoArrayTwoKey main aux k1 k2 szMain szAux dir i j) :=
  (sameLog_twoKeyTest main k1 k2 szMain dir i j).bind fun _ _ =>
    (sameLog_swapBlocks main szMain i j _ _).bind fun _ _ => sameLog_swapBlocks aux szAux i j _ _

omit [DecidableEq ι] in
lemma sameLog_bitonicMerge {cas : ℕ → ℕ → Traced ι Unit}
    (h : ∀ i j, SameLog (cas i j) (cas i j)) (low cnt : ℕ) :
    SameLog (bitonicMerge cas low cnt) (bitonicMerge cas low cnt) := by
  fun_induction bitonicMerge cas low cnt with
  | case1 low cnt hcnt ih1 ih2 =>
    exact (sameLog_forUpTo (fun t => h _ _) _).bind fun _ _ => ih1.bind fun _ _ => ih2
  | case2 low cnt hcnt => exact sameLog_pure _ _

omit [DecidableEq ι] in
lemma sameLog_bitonicSubSort {δ : Type} {cas : δ → ℕ → ℕ → Traced ι Unit}
    (h : ∀ d i j, SameLog (cas d i j) (cas d i j)) (up down : δ) (low cnt : ℕ) (dir : δ) :
    SameLog (bitonicSubSort cas up down low cnt dir) (bitonicSubSort cas up down low cnt dir) := by
  fun_induction bitonicSubSort cas up down low cnt dir with
  | case1 low cnt dir hcnt ih1 ih2 =>
    exact ih1.bind fun _ _ => ih2.bind fun _ _ => sameLog_bitonicMerge (h dir) low cnt
  | case2 low cnt dir hcnt => exact sameLog_pure _ _

omit [DecidableEq ι] in
lemma exists_cells {sort : Traced ι Unit} (h : SameLog sort sort) (b : Bool) :
    ∃ cells, ∀ m, (if b then some sort else none).map (fun x => x.log m) = cells := by
  refine ⟨(if b then some sort else none).map fun x => x.log ⟨fun _ _ => 0⟩, fun m => ?_⟩
  cases b with
  | false => rfl
  | true => exact congrArg some (h m _)

/-- **The bitonic sorts are oblivious.** Each of them touches the same cells in the same order
whatever the arrays hold. -/
theorem bitonicSort_oblivious (arr main aux : ι) (N keyIdx key1Idx key2Idx blockSz blockSzAux : ℕ)
    (dir dir1 dir2 : Dir) :
    (∃ cells, ∀ m, (bitonicSortInt arr N dir).map (fun x => x.log m) = cells) ∧
      (∃ cells, ∀ m, (bitonicSortBlock arr N keyIdx dir blockSz).map (fun x => x.log m) = cells) ∧
      (∃ cells, ∀ m, (bitonicSortGeneral arr N blockSz key1Idx dir1 key2Idx dir2).map
        (fun x => x.log m) = cells) ∧
      (∃ cells, ∀ m, (bitonicSortTwoArray main aux N keyIdx dir blockSz blockSzAux).map
        (fun x => x.log m) = cells) ∧
      ∃ cells, ∀ m, (bitonicSortTwoArrayTwoKey main aux N key1Idx dir1 key2Idx dir2 blockSz
        blockSzAux).map (fun x => x.log m) = cells := by
  refine ⟨?_, ?_, ?_, ?_, ?_⟩
  · exact exists_cells (sameLog_bitonicSubSort (fun _ _ _ => by intro _ _; rfl) _ _ _ _ _) _
  · refine exists_cells (sameLog_bitonicSubSort (fun _ i j => ?_) _ _ _ _ _) _
    exact (sameLog_load _ _).bind fun _ _ => (sameLog_load _ _).bind fun _ _ =>
      sameLog_swapBlocks arr blockSz i j _ _
  · refine exists_cells (sameLog_bitonicSubSort (fun d i j => ?_) _ _ _ _ _) _
    exact (sameLog_twoKeyTest arr _ _ _ d i j).bind fun _ _ => sameLog_swapBlocks arr _ i j _ _
  · refine exists_cells (sameLog_bitonicSubSort (fun _ i j => ?_) _ _ _ _ _) _
    exact (sameLog_load _ _).bind fun _ _ => (sameLog_load _ _).bind fun _ _ =>
      (sameLog_swapBlocks main _ i j _ _).bind fun _ _ => sameLog_swapBlocks aux _ i j _ _
  · exact exists_cells (sameLog_bitonicSubSort
      (fun d i j => sameLog_compAndSwapTwoArrayTwoKey main aux _ _ _ _ d i j) _ _ _ _ _) _

end Primitives

variable (p : OramParams)

lemma sameLog_retrieveLeafLabel (id id' accessLeaf accessLeaf' newLeaf newLeaf' : ℕ) :
    SameLog (retrieveLeafLabel p id accessLeaf newLeaf)
      (retrieveLeafLabel p id' accessLeaf' newLeaf') :=
  sameLog_loop (fun i _ _ => (sameLog_load _ i).bind fun _ _ => (sameLog_load _ i).bind fun _ _ =>
    (sameLog_store _ i _ _).bind fun _ _ => sameLog_pure _ _) _ _ _

lemma sameLog_fetchBlock (t s : ℕ) : SameLog (fetchBlock p t s) (fetchBlock p t s) :=
  (sameLog_load _ _).bind fun _ _ => (sameLog_store _ _ _ _).bind fun _ _ =>
    (sameLog_load _ _).bind fun _ _ => (sameLog_store _ _ _ _).bind fun _ _ =>
    (sameLog_load _ _).bind fun _ _ => (sameLog_store _ _ _ _).bind fun _ _ =>
    (sameLog_store _ _ _ _).bind fun _ _ => sameLog_forUpTo (fun _ => by intro _ _; rfl) _

lemma sameLog_writeBackBlock (t s : ℕ) : SameLog (writeBackBlock p t s) (writeBackBlock p t s) :=
  (sameLog_load _ _).bind fun _ _ => (sameLog_store _ _ _ _).bind fun _ _ =>
    (sameLog_load _ _).bind fun _ _ => (sameLog_store _ _ _ _).bind fun _ _ =>
    (sameLog_load _ _).bind fun _ _ => (sameLog_store _ _ _ _).bind fun _ _ =>
    (sameLog_store _ _ _ _).bind fun _ _ => sameLog_forUpTo (fun _ => by intro _ _; rfl) _

lemma sameLog_walkLoop {move : ℕ → ℕ → Traced OramArr Unit}
    (h : ∀ t s, SameLog (move t s) (move t s)) (n : ℕ) (s : ℕ × ℕ) :
    let walk := loop (fun i (s : ℕ × ℕ) => do
      forUpTo p.bucketSize fun j => move (s.1 * p.bucketSize + j) (i * p.bucketSize + j)
      pure (walkStep s)) n s
    SameLog walk walk ∧ ∀ m m', walk.val m = walk.val m' := by
  intro walk
  induction n with
  | zero => exact ⟨sameLog_pure s s, fun _ _ => rfl⟩
  | succ n ih =>
    obtain ⟨hlog, hval⟩ := ih
    constructor
    · intro m m'
      simp only [walk, loop_succ, log_bind, log_pure, List.append_nil] at hlog hval ⊢
      rw [hlog m m', hval m m', sameLog_forUpTo (fun _ => h _ _) p.bucketSize _ _]
    · intro m m'
      simp only [walk, loop_succ, val_bind, val_pure] at hval ⊢
      rw [hval m m']

lemma sameLog_fetchPath (leaf : ℕ) : SameLog (fetchPath p leaf) (fetchPath p leaf) :=
  (sameLog_walkLoop p (sameLog_fetchBlock p) p.depth (walkStart p leaf)).1

lemma sameLog_writeBackPath (leaf : ℕ) : SameLog (writeBackPath p leaf) (writeBackPath p leaf) :=
  (sameLog_walkLoop p (sameLog_writeBackBlock p) p.depth (walkStart p leaf)).1

lemma sameLog_clearScratch : SameLog (clearScratch p) (clearScratch p) :=
  (sameLog_forUpTo (fun i => sameLog_store _ i _ _) _).bind fun _ _ =>
    sameLog_forUpTo (fun i => sameLog_store _ i _ _) _

lemma sortStash_sameLog (hsort : p.sortScheme = .bitonicSort) :
    ∃ sort, sortStash p = some sort ∧ SameLog sort sort := by
  obtain ⟨sort, hsome, -⟩ := sortStash_sorted p
  refine ⟨sort, hsome, ?_⟩
  simp only [sortStash, hsort, bitonicSortTwoArrayTwoKey] at hsome
  split at hsome
  · rw [← Option.some.inj hsome]
    exact sameLog_bitonicSubSort
      (fun d i j => sameLog_compAndSwapTwoArrayTwoKey _ _ _ _ _ _ d i j) _ _ _ _ _
  · cases hsome

lemma log_andValid (test : Bool) (i : ℕ) (f : ℤ → Bool) (m : Mem OramArr) :
    (andValid test i f).log m = if test then [(.stashInfo, infoValid i)] else [] := by
  cases test <;> rfl

abbrev infoCell (w : ℕ) : OramArr × ℕ := (.stashInfo, w)

/-- The cells of a round of the scan of the stash: the tests on the valid word are optional, the
moves of the data are those in `toBuffer` and `toSlot`. -/
def accessCells (i : ℕ) (hasId new : Bool) (toBuffer toSlot : List (OramArr × ℕ)) :
    List (OramArr × ℕ) :=
  [infoCell (infoId i)] ++
  (((if hasId then [infoCell (infoValid i)] else []) ++
    (List.replicate 0 (infoCell (infoValid i)) ++ [infoCell (infoLeaf i)])) ++
  ([infoCell (infoLeaf i)] ++ toBuffer ++ toSlot) ++
  (((if new then [infoCell (infoValid i)] else []) ++
    (List.replicate 2 (infoCell (infoValid i)) ++ [infoCell (infoId i)])) ++
  ([infoCell (infoId i), infoCell (infoLeaf i), infoCell (infoLeaf i)] ++ toSlot)))

lemma accessStep_splits {op op' : Op} {id id' newLeaf newLeaf' : ℕ} {new new' : Bool} (i : ℕ)
    (w w' : Bool) (m m' : Mem OramArr) :
    Splits ((accessStep p op id newLeaf new i w).log m)
      ((accessStep p op' id' newLeaf' new' i w').log m')
      (decide (m.get .stashInfo (infoId i) = id) = decide (m'.get .stashInfo (infoId i) = id') ∧
        new = new') := by
  have hleaf : infoCell (infoValid i) ≠ infoCell (infoLeaf i) := by simp [infoValid, infoLeaf]
  have hid : infoCell (infoValid i) ≠ infoCell (infoId i) := by simp [infoValid, infoId]
  have hcells : ∀ (op : Op) (id newLeaf : ℕ) (new w : Bool) (m : Mem OramArr),
      (accessStep p op id newLeaf new i w).log m =
        accessCells i (decide (m.get .stashInfo (infoId i) = id)) new
          ((cmovn false .stashData (i * p.blockSize) .data 0 p.blockSize).log m)
          ((cmovn false .data 0 .stashData (i * p.blockSize) p.blockSize).log m) := by
    intro op id newLeaf new w m
    unfold accessStep accessCells
    simp only [log_bind, log_load, log_andValid, log_pure, val_load, exec_load,
      sameLog_cmovn _ false .stashData _ .data 0 p.blockSize _ m,
      sameLog_cmovn _ false .data 0 .stashData _ p.blockSize _ m]
    simp [cmovTo, -decide_eq_true_eq]
    rfl
  rw [hcells op, hcells op', sameLog_cmovn false false .stashData _ .data 0 p.blockSize m m',
    sameLog_cmovn false false .data 0 .stashData _ p.blockSize m m']
  unfold accessCells
  refine Splits.append_left rfl ?_
  exact Splits.append (Splits.append_right (splits_optional hleaf 0 _ _) rfl) fun _ =>
    Splits.append_right (splits_optional hid 2 _ _) rfl

def sharesRootOnly (accessLeaf : ℕ) (leaf : ℤ) : Bool :=
  (pushBackDiff p accessLeaf leaf &&& -pushBackDiff p accessLeaf leaf) - 1 = 0

lemma log_pushBack (accessLeaf : ℕ) (leaf : ℤ) (m : Mem OramArr) :
    (pushBack p accessLeaf leaf p.depth).log m = (fullMask p p.depth).log m ++
      if sharesRootOnly p accessLeaf leaf then [(.occupied, 0)] else [] := by
  unfold pushBack sharesRootOnly pushBackDiff
  rw [log_bind]
  generalize bitwiseReverse (BitVec.ofNat 32 accessLeaf) p.depth ^^^
    bitwiseReverse (BitVec.ofInt 32 leaf) p.depth = t1
  generalize (t1 &&& -t1) - 1 = t3
  by_cases hroot : t3 = 0
  · rw [if_pos hroot, decide_eq_true hroot, if_pos rfl]
    rfl
  · rw [if_neg hroot, decide_eq_false hroot]
    rfl

lemma sameLog_fullMask (L : ℕ) : SameLog (fullMask p L) (fullMask p L) :=
  sameLog_loop (fun i _ _ => (sameLog_load _ i).bind fun _ _ => sameLog_pure _ _) L _ _

omit p in
lemma log_scanOramRead (N : ℕ) (d idx : ℤ) (m : Mem OramArr) :
    (scanOramRead OramArr.occupied N d idx).log m =
      (List.range N).map fun l => (.occupied, l) := by
  unfold scanOramRead
  induction N with
  | zero => rfl
  | succ N ih =>
    rw [loop_succ, log_bind, ih, List.range_succ, List.map_append]
    rfl

omit p in
lemma log_scanOramWrite (base : OramArr) (N : ℕ) (d idx : ℤ) (m : Mem OramArr) :
    (scanOramWrite base N d idx).log m =
      (List.range N).flatMap fun l => [(base, l), (base, l)] := by
  unfold scanOramWrite
  induction N with
  | zero => rfl
  | succ N ih =>
    rw [forUpTo_succ, log_bind, ih, List.range_succ, List.flatMap_append]
    rfl

def evictCells (i : ℕ) : List (OramArr × ℕ) :=
  (List.range p.depth).map (fun l => (OramArr.occupied, l)) ++
    ((List.range (p.depth * p.bucketSize)).flatMap
      (fun l => [(OramArr.wbPath, l), (OramArr.wbPath, l)]) ++
    ((List.range p.depth).flatMap (fun l => [(OramArr.occupied, l), (OramArr.occupied, l)]) ++
    List.replicate 4 (infoCell (infoKey i))))

lemma evictCells_eq (i : ℕ) : ∃ d rest, ((OramArr.occupied, 0) : OramArr × ℕ) ≠ d ∧
    evictCells p i = (List.replicate 1 (.occupied, 0) ++ [d]) ++ rest := by
  have hD := p.depth_pos
  have hZ := p.bucketSize_pos
  obtain ⟨n, hn⟩ : ∃ n, p.depth = n + 1 := ⟨p.depth - 1, by omega⟩
  have hplaces : 0 < p.depth * p.bucketSize := Nat.mul_pos hD hZ
  obtain ⟨k, hk⟩ : ∃ k, p.depth * p.bucketSize = k + 1 := ⟨p.depth * p.bucketSize - 1, by omega⟩
  unfold evictCells
  rw [hk, hn, List.range_succ_eq_map, List.range_succ_eq_map]
  cases n with
  | zero => exact ⟨(.wbPath, 0), _, by simp, rfl⟩
  | succ n =>
    rw [List.range_succ_eq_map]
    exact ⟨(.occupied, 1), _, by simp, rfl⟩

lemma evictStep_splits (accessLeaf i : ℕ) (m m' : Mem OramArr) :
    Splits ((evictStep p accessLeaf i).log m) ((evictStep p accessLeaf i).log m')
      (sharesRootOnly p accessLeaf (m.get .stashInfo (infoLeaf i)) =
        sharesRootOnly p accessLeaf (m'.get .stashInfo (infoLeaf i))) := by
  have hcells : ∀ m : Mem OramArr, (evictStep p accessLeaf i).log m =
      [infoCell (infoValid i), infoCell (infoLeaf i)] ++
      ((fullMask p p.depth).log m ++
      ((if sharesRootOnly p accessLeaf (m.get .stashInfo (infoLeaf i)) then [(OramArr.occupied, 0)]
        else []) ++ evictCells p i)) := by
    intro m
    unfold evictStep evictCells
    simp only [log_bind, log_load, log_pushBack, val_load, exec_load, log_scanOramRead,
      log_scanOramWrite, List.append_assoc, List.cons_append, List.nil_append]
    rfl
  obtain ⟨d, rest, hne, hd⟩ := evictCells_eq p i
  have hopt : ∀ b : Bool, (if b then [(OramArr.occupied, 0)] else []) ++ evictCells p i =
      ((if b then [(.occupied, 0)] else []) ++ (List.replicate 1 (.occupied, 0) ++ [d])) ++ rest := by
    intro b
    rw [hd, ← List.append_assoc]
  rw [hcells, hcells, hopt, hopt]
  exact .append_left rfl (.append_left (sameLog_fullMask p p.depth m m')
    (.append_right (splits_optional hne 1 _ _) rfl))

lemma extraKeyStep_splits (x x' j : ℕ) (add add' done done' : Bool) (m m' : Mem OramArr) :
    Splits ((extraKeyStep x add j done).log m) ((extraKeyStep x' add' j done').log m')
      ((add && !done) = (add' && !done')) := by
  have hne : infoCell (infoValid j) ≠ infoCell (infoKey j) := by simp [infoValid, infoKey]
  have hcells : ∀ (x : ℕ) (add done : Bool) (m : Mem OramArr),
      (extraKeyStep x add j done).log m =
        ((if (add && !done) = true then [infoCell (infoValid j)] else []) ++
          (List.replicate 0 (infoCell (infoValid j)) ++ [infoCell (infoKey j)])) ++
        [infoCell (infoKey j)] := by
    intro x add done m
    unfold extraKeyStep
    simp only [log_bind, log_andValid, log_pure]
    simp [cmovTo]
  rw [hcells x, hcells x']
  exact Splits.append_right (splits_optional hne 0 _ _) rfl

/-- An access to an id of the position map, from the memory `mem`. -/
structure Access where
  op : Op
  id : ℕ
  r1 : ℕ
  r2 : ℕ
  mem : Mem OramArr
  id_lt : id < p.numRealBlocks

namespace Access

variable {p} (a b : Access p)

/-- The cells the access touches, in order. -/
def log : List (OramArr × ℕ) := (accessOram p a.op a.id a.r1 a.r2 a.mem).1

def leaf : ℕ := accessLeaf p a.id a.r1 a.r2 a.mem
def isNew : Bool := accessIsNew p a.id a.r1 a.r2 a.mem

def stops : Bool := a.op = .read && a.isNew

def fetched : Mem OramArr := memFetched p a.id a.r1 a.r2 a.mem
def scanned : Mem OramArr := memScanned p a.op a.id a.r1 a.r2 a.mem
def evicted : Mem OramArr := (evict p a.leaf).exec ((clearScratch p).exec a.scanned)

def slotHasId (i : ℕ) : Bool := ((Oram.ofMem p a.fetched).slot i).id = a.id

def slotSharesRoot (i : ℕ) : Bool := sharesRootOnly p a.leaf ((Oram.ofMem p a.scanned).slot i).leaf

/-- `if_add_extra_key && !add_extra_key_done`: the place `q` is empty and no slot before `j` is
invalid. -/
def seeks (q j : ℕ) : Bool :=
  decide ((Oram.ofMem p a.evicted).wbPath q = -1) &&
    decide (∀ j' < j, ((Oram.ofMem p a.scanned).slot j').valid ≠ 0)

/-- The short-circuit tests of two accesses come out the same way. -/
structure SameTests : Prop where
  stops : a.stops = b.stops
  isNew : a.stops = false → a.isNew = b.isNew
  ids : a.stops = false → ∀ i < p.stashSize, a.slotHasId i = b.slotHasId i
  levels : a.stops = false → ∀ i < p.stashSize, a.slotSharesRoot i = b.slotSharesRoot i
  keys : a.stops = false → ∀ q < p.depth * p.bucketSize, ∀ j < p.stashSize, a.seeks q j = b.seeks q j

lemma accessLoop_slot (op : Op) (id newLeaf : ℕ) (new : Bool) (m : Mem OramArr) {n j : ℕ}
    (hj : n ≤ j) :
    (Oram.ofMem p ((loop (accessStep p op id newLeaf new) n false).exec m)).slot j =
      (Oram.ofMem p m).slot j := by
  refine loop_invariant (fun n _ m' => ∀ j, n ≤ j →
    (Oram.ofMem p m').slot j = (Oram.ofMem p m).slot j) (accessStep p op id newLeaf new) n false m
    (fun _ _ => rfl) (fun n _ w m' h j hj => ?_) j hj
  rw [(accessStep_spec p op id newLeaf new n w rfl rfl).2,
    Oram.setSlot_slot_of_ne _ _ _ (by omega), Oram.setBuffer_slot]
  exact h j (by omega)

lemma accessStash_splits :
    Splits ((accessStash p a.op a.id (genRandLeaf p a.r2) a.isNew).log a.fetched)
      ((accessStash p b.op b.id (genRandLeaf p b.r2) b.isNew).log b.fetched)
      (∀ i < p.stashSize, a.slotHasId i = b.slotHasId i ∧ a.isNew = b.isNew) := by
  have hid : ∀ (a : Access p) (i : ℕ), ((loop (accessStep p a.op a.id (genRandLeaf p a.r2) a.isNew)
      i false).exec a.fetched).get .stashInfo (infoId i) =
        ((Oram.ofMem p a.fetched).slot i).id := fun a i =>
    congrArg Slot.id (accessLoop_slot a.op a.id (genRandLeaf p a.r2) a.isNew a.fetched le_rfl)
  refine loop_splits _ _ p.stashSize false false _ _ _ fun i _ _ => ?_
  refine (accessStep_splits p i _ _ _ _).congr ?_
  rw [hid a i, hid b i]
  rfl

lemma evict_splits (hleaf : a.leaf = b.leaf) :
    Splits ((evict p a.leaf).log ((clearScratch p).exec a.scanned))
      ((evict p b.leaf).log ((clearScratch p).exec b.scanned))
      (∀ i < p.stashSize, a.slotSharesRoot i = b.slotSharesRoot i) := by
  have hlabel : ∀ (a : Access p) (i : ℕ), ((forUpTo i (evictStep p a.leaf)).exec
      ((clearScratch p).exec a.scanned)).get .stashInfo (infoLeaf i) =
        ((Oram.ofMem p a.scanned).slot i).leaf := by
    intro a i
    obtain ⟨hclear, hocc⟩ := clearScratch_spec p a.scanned
    have hevict := evict_evicted p a.leaf i _ hocc
    exact (hevict.same.leaf i).trans (hclear.leaf i)
  refine loop_splits _ _ p.stashSize () () _ _ _ fun i _ _ => ?_
  have hstep := evictStep_splits p a.leaf i
    ((forUpTo i (evictStep p a.leaf)).exec ((clearScratch p).exec a.scanned))
    ((forUpTo i (evictStep p b.leaf)).exec ((clearScratch p).exec b.scanned))
  rw [hlabel a i, hlabel b i] at hstep
  unfold slotSharesRoot
  rw [← hleaf] at hstep ⊢
  exact hstep

lemma extraLoop_spec (x : ℕ) (add : Bool) (m : Mem OramArr) (n : ℕ) :
    (loop (extraKeyStep x add) n false).val m =
        (add && !decide (∀ j < n, ((Oram.ofMem p m).slot j).valid ≠ 0)) ∧
      SameButKeys (Oram.ofMem p m) (Oram.ofMem p ((loop (extraKeyStep x add) n false).exec m)) ∧
      (Oram.ofMem p ((loop (extraKeyStep x add) n false).exec m)).wbPath =
        (Oram.ofMem p m).wbPath := by
  refine loop_invariant (fun n done m' =>
    done = (add && !decide (∀ j < n, ((Oram.ofMem p m).slot j).valid ≠ 0)) ∧
      SameButKeys (Oram.ofMem p m) (Oram.ofMem p m') ∧
      (Oram.ofMem p m').wbPath = (Oram.ofMem p m).wbPath)
    (extraKeyStep x add) n false m ⟨by simp, SameButKeys.refl _, rfl⟩
    (fun n _ done m' ⟨hdone, hsame, hwb⟩ => ?_)
  obtain ⟨hval, hmem⟩ := extraKeyStep_spec p x add n done m'
  rw [hval, hmem, hsame.valid n]
  refine ⟨?_, ?_, ?_⟩
  · rw [hdone]
    have hsucc : (∀ j < n + 1, ((Oram.ofMem p m).slot j).valid ≠ 0) ↔
        (∀ j < n, ((Oram.ofMem p m).slot j).valid ≠ 0) ∧
          ((Oram.ofMem p m).slot n).valid ≠ 0 := by
      constructor
      · intro h
        exact ⟨fun j hj => h j (by omega), h n (by omega)⟩
      · rintro ⟨h, hn⟩ j hj
        rcases Nat.lt_succ_iff_lt_or_eq.mp hj with hlt | rfl
        · exact h j hlt
        · exact hn
    rw [decide_eq_decide.mpr hsucc, Bool.decide_and]
    cases add <;> by_cases hall : ∀ j < n, ((Oram.ofMem p m).slot j).valid ≠ 0 <;>
      by_cases hn : ((Oram.ofMem p m).slot n).valid = 0 <;> simp [hall, hn]
  · split
    · exact hsame.trans (sameButKeys_setKey _ n x)
    · exact hsame
  · split
    · exact hwb
    · exact hwb

variable (p) in
def extraRound (i : ℕ) : Traced OramArr Unit := do
  let w ← load .wbPath i
  let _ ← loop (extraKeyStep i (w = -1)) p.stashSize false
  pure ()

lemma extraRounds_frame (m : Mem OramArr) (n : ℕ) :
    SameButKeys (Oram.ofMem p m) (Oram.ofMem p ((forUpTo n (extraRound p)).exec m)) ∧
      (Oram.ofMem p ((forUpTo n (extraRound p)).exec m)).wbPath = (Oram.ofMem p m).wbPath := by
  refine forUpTo_invariant (fun _ m' => SameButKeys (Oram.ofMem p m) (Oram.ofMem p m') ∧
    (Oram.ofMem p m').wbPath = (Oram.ofMem p m).wbPath) _ n m ⟨SameButKeys.refl _, rfl⟩
    (fun n _ m' ⟨hsame, hwb⟩ => ?_)
  simp only [extraRound, exec_bind, val_load, exec_load, exec_pure]
  obtain ⟨-, hsame', hwb'⟩ := extraLoop_spec (p := p) n (decide (m'.get .wbPath n = -1)) m' p.stashSize
  exact ⟨hsame.trans hsame', hwb'.trans hwb⟩

lemma addExtraKeys_splits :
    Splits ((addExtraKeys p).log a.evicted) ((addExtraKeys p).log b.evicted)
      (∀ q < p.depth * p.bucketSize, ∀ j < p.stashSize, a.seeks q j = b.seeks q j) := by
  have hevicted : ∀ (a : Access p), SameButKeys (Oram.ofMem p a.scanned)
      (Oram.ofMem p a.evicted) := by
    intro a
    obtain ⟨hclear, hocc⟩ := clearScratch_spec p a.scanned
    exact hclear.trans (evict_evicted p a.leaf p.stashSize _ hocc).same
  have hrounds : addExtraKeys p = forUpTo (p.depth * p.bucketSize) (extraRound p) := rfl
  rw [hrounds]
  refine loop_splits _ _ _ () () _ _ _ fun q _ _ => ?_
  set ma := (loop (fun i _ => extraRound p i) q ()).exec a.evicted
  set mb := (loop (fun i _ => extraRound p i) q ()).exec b.evicted
  have hseeks : ∀ (a : Access p) (ma : Mem OramArr),
      SameButKeys (Oram.ofMem p a.evicted) (Oram.ofMem p ma) →
      (Oram.ofMem p ma).wbPath = (Oram.ofMem p a.evicted).wbPath → ∀ j,
      (decide (ma.get .wbPath q = -1) &&
        !(loop (extraKeyStep q (decide (ma.get .wbPath q = -1))) j false).val ma) = a.seeks q j := by
    intro a ma hsame hwb j
    have hwb' : ma.get .wbPath q = (Oram.ofMem p a.evicted).wbPath q := congrFun hwb q
    have hvalid : ∀ j, ((Oram.ofMem p ma).slot j).valid = ((Oram.ofMem p a.scanned).slot j).valid :=
      fun j => (hsame.valid j).trans ((hevicted a).valid j)
    rw [(extraLoop_spec (p := p) q _ ma j).1, hwb']
    simp only [hvalid]
    unfold seeks
    cases decide ((Oram.ofMem p a.evicted).wbPath q = -1) <;> simp
  obtain ⟨hsa, hwa⟩ := extraRounds_frame (p := p) a.evicted q
  obtain ⟨hsb, hwb⟩ := extraRounds_frame (p := p) b.evicted q
  simp only [extraRound, log_bind, log_load, val_load, exec_load, log_pure, List.append_nil]
  refine .append_left rfl (loop_splits _ _ p.stashSize false false _ _ _ fun j _ _ => ?_)
  have hsa' := hseeks a ma hsa hwa j
  have hsb' := hseeks b mb hsb hwb j
  exact (extraKeyStep_splits q q j _ _ _ _ _ _).congr (Iff.of_eq (congrArg₂ Eq hsa' hsb'))

def served (sort : Traced OramArr Unit) : Traced OramArr Unit := do
  let _ ← accessRetrieve p a.id a.r1 a.r2
  fetchBlocks p a.op a.id a.leaf (genRandLeaf p a.r2) a.isNew
  assignKeys p a.leaf
  sort
  let _ ← writeBackPath p a.leaf
  pure ()

lemma log_eq {sort : Traced OramArr Unit} (hsort : sortStash p = some sort) :
    a.log = if a.stops then (accessRetrieve p a.id a.r1 a.r2).log a.mem
      else (a.served sort).log a.mem := by
  have hid := a.id_lt
  have hrange : ¬((a.id : ℤ) < 0 ∨ (a.id : ℤ) ≥ (p.numRealBlocks : ℤ)) := by omega
  have hstop : (a.op = .read ∧ accessIsNew p a.id a.r1 a.r2 a.mem = true) ↔ a.stops = true := by
    unfold stops isNew
    rw [Bool.and_eq_true, decide_eq_true_iff]
  unfold log accessOram
  rw [if_neg hrange]
  simp only [Int.toNat_natCast, storeBlocks, hsort, Option.map_some]
  change (if a.op = .read ∧ accessIsNew p a.id a.r1 a.r2 a.mem = true then _ else _ :
    List (OramArr × ℕ) × Option (Mem OramArr)).1 = _
  by_cases hs : a.stops = true
  · rw [if_pos (hstop.mpr hs), if_pos hs]
    rfl
  · rw [if_neg (fun h => hs (hstop.mp h)), if_neg hs]
    rfl

lemma log_served (sort : Traced OramArr Unit) : ∃ m₁ m₂ m₃ m₄ : Mem OramArr,
    (a.served sort).log a.mem = (accessRetrieve p a.id a.r1 a.r2).log a.mem ++
      ((fetchPath p a.leaf).log m₁ ++
      ((accessStash p a.op a.id (genRandLeaf p a.r2) a.isNew).log a.fetched ++
      ((clearScratch p).log m₂ ++
      ((evict p a.leaf).log ((clearScratch p).exec a.scanned) ++
      ((addExtraKeys p).log a.evicted ++
      (sort.log m₃ ++ (writeBackPath p a.leaf).log m₄)))))) := by
  refine ⟨(accessRetrieve p a.id a.r1 a.r2).exec a.mem, a.scanned,
    (addExtraKeys p).exec a.evicted, sort.exec ((addExtraKeys p).exec a.evicted), ?_⟩
  unfold served fetchBlocks assignKeys
  simp only [log_bind, exec_bind, log_pure, exec_pure, List.append_nil, List.append_assoc]
  rfl

lemma served_splits {sort : Traced OramArr Unit} (hsort : SameLog sort sort)
    (hleaf : a.leaf = b.leaf) :
    Splits ((a.served sort).log a.mem) ((b.served sort).log b.mem)
      ((∀ i < p.stashSize, a.slotHasId i = b.slotHasId i ∧ a.isNew = b.isNew) ∧
        (∀ i < p.stashSize, a.slotSharesRoot i = b.slotSharesRoot i) ∧
        ∀ q < p.depth * p.bucketSize, ∀ j < p.stashSize, a.seeks q j = b.seeks q j) := by
  obtain ⟨m₁, m₂, m₃, m₄, ha⟩ := a.log_served sort
  obtain ⟨m₁', m₂', m₃', m₄', hb⟩ := b.log_served sort
  rw [ha, hb]
  refine .append_left (sameLog_retrieveLeafLabel p _ _ _ _ _ _ _ _) ?_
  refine .append_left (by rw [hleaf]; exact sameLog_fetchPath p b.leaf _ _) ?_
  refine (accessStash_splits a b).append fun _ => ?_
  refine .append_left (sameLog_clearScratch p _ _) ?_
  refine (evict_splits a b hleaf).append fun _ => ?_
  refine .append_right (addExtraKeys_splits a b) ?_
  rw [hsort m₃ m₃', hleaf, sameLog_writeBackPath p b.leaf m₄ m₄']

lemma served_longer (sort : Traced OramArr Unit) :
    ∃ c rest, (a.served sort).log a.mem =
      (accessRetrieve p a.id a.r1 a.r2).log a.mem ++ c :: rest := by
  have hS : 0 < p.stashSize := by
    have := p.pathLen_lt_stashSize
    omega
  have hne : (accessStash p a.op a.id (genRandLeaf p a.r2) a.isNew).log a.fetched ≠ [] := by
    obtain ⟨n, hn⟩ : ∃ n, p.stashSize = n + 1 := ⟨p.stashSize - 1, by omega⟩
    unfold accessStash
    rw [hn, loop_succ, log_bind]
    intro h
    have hlast := (List.append_eq_nil_iff.mp h).2
    unfold accessStep at hlast
    rw [log_bind] at hlast
    cases hlast
  obtain ⟨m₁, m₂, m₃, m₄, hlog⟩ := a.log_served sort
  rw [hlog]
  cases hrest : (fetchPath p a.leaf).log m₁ ++
      ((accessStash p a.op a.id (genRandLeaf p a.r2) a.isNew).log a.fetched ++
      ((clearScratch p).log m₂ ++
      ((evict p a.leaf).log ((clearScratch p).exec a.scanned) ++
      ((addExtraKeys p).log a.evicted ++
      (sort.log m₃ ++ (writeBackPath p a.leaf).log m₄))))) with
  | nil =>
    have h := (List.append_eq_nil_iff.mp (List.append_eq_nil_iff.mp hrest).2).1
    exact absurd h hne
  | cons c rest => exact ⟨c, rest, rfl⟩

end Access

end OISA.Primitives
