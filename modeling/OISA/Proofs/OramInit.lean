import OISA.Proofs.OramRuns

/-!
# The initial ORAM

`Init_ORAM` empties the stash and the position map.
-/

namespace OISA.Primitives

open OISA.Lib OISA.Lib.Traced

lemma calloc_get (a b : OramArr) (n i : ℕ) (m : Mem OramArr) :
    (calloc a n m).get b i = if b = a ∧ i < n then 0 else m.get b i := rfl

variable (p : OramParams)

lemma exec_initOramTree (m : Mem OramArr) :
    (initOramTree p).exec m = m.set .tree p.treeStride 0 := by
  have hrounds : 0 < (1 <<< p.depth) * p.bucketSize := by
    rw [Nat.one_shiftLeft]
    exact Nat.mul_pos (Nat.two_pow_pos _) p.bucketSize_pos
  have hloop := forUpTo_invariant
    (fun n m' => m' = if n = 0 then m else m.set .tree p.treeStride 0)
    (fun _ => store .tree p.treeStride 0) ((1 <<< p.depth) * p.bucketSize) m (if_pos rfl).symm
    (fun n _ m' hm' => ?_)
  · rw [if_neg (by omega)] at hloop
    exact hloop
  · rw [exec_store, hm', if_neg n.succ_ne_zero]
    split
    · rfl
    · ext b j
      simp only [Mem.get_set]
      split <;> rfl

lemma initOram_get (m : Mem OramArr) (a : OramArr) (i : ℕ) :
    (initOram p m).get a i = if a = .tree ∧ i = p.treeStride then 0
      else (initOramController p m).get a i := by
  rw [initOram, exec_initOramTree, Mem.get_set]

lemma initOram_tree_valid (m : Mem OramArr) (t : ℕ) :
    ((Oram.ofMem p (initOram p m)).tree t).valid =
      if t = 1 then 0 else ((Oram.ofMem p m).tree t).valid := by
  have hstride : 0 < p.treeStride := Nat.add_pos_left (by decide) _
  have hkeeps : (initOramController p m).get .tree = m.get .tree := by
    funext i
    rw [initOramController, initStash, initPosMap, calloc_get, calloc_get, if_neg (by simp),
      if_neg (by simp)]
  change (initOram p m).get .tree (t * p.treeStride) = _
  rw [initOram_get, hkeeps]
  by_cases ht : t = 1
  · subst ht
    rw [Nat.one_mul, if_pos ⟨rfl, rfl⟩, if_pos rfl]
  · have hne : t * p.treeStride ≠ p.treeStride := fun h =>
      ht (Nat.eq_of_mul_eq_mul_right hstride (h.trans (Nat.one_mul _).symm))
    rw [if_neg fun h => hne h.2, if_neg ht]
    rfl

lemma initOram_slot_valid (m : Mem OramArr) {i : ℕ} (hi : i < p.stashSize) :
    ((Oram.ofMem p (initOram p m)).slot i).valid = 0 := by
  change (initOram p m).get .stashInfo (infoValid i) = 0
  rw [initOram_get, if_neg (by simp), initOramController, initStash, calloc_get,
    if_pos ⟨rfl, by unfold infoValid; omega⟩]

lemma initOram_posValid (m : Mem OramArr) {id : ℕ} (hid : id < p.numRealBlocks) :
    posValid ((Oram.ofMem p (initOram p m)).entry id) = false := by
  have hentry : (Oram.ofMem p (initOram p m)).entry id = 0 := by
    change (initOram p m).get .posMap id = 0
    rw [initOram_get, if_neg (by simp), initOramController, initStash, calloc_get,
      if_neg (by simp), initPosMap, calloc_get, if_pos ⟨rfl, hid⟩]
  rw [hentry]
  decide

/-- The ORAM is empty, and represents the array without blocks, exactly when every block of
the tree but block 1 was invalid in the memory that `malloc` returned. -/
theorem initOram_empty_iff (m : Mem OramArr) :
    (EmptyOram p (initOram p m) ∧ (Oram.ofMem p (initOram p m)).Refines p fun _ => none) ↔
      ∀ t < p.treeSize, t ≠ 1 → ((Oram.ofMem p m).tree t).valid = 0 := by
  constructor
  · rintro ⟨hempty, -⟩ t ht hne
    have hvalid := hempty.tree t ht
    rwa [initOram_tree_valid, if_neg hne] at hvalid
  · intro h
    have hempty : EmptyOram p (initOram p m) :=
      { stash := fun i hi => initOram_slot_valid p m hi
        tree := fun t ht => by
          rw [initOram_tree_valid]
          split
          · rfl
          · exact h t ht ‹_›
        posMap := fun id hid => initOram_posValid p m hid }
    exact ⟨hempty, hempty.refines⟩

def onesMem : Mem OramArr := ⟨fun _ _ => 1⟩

theorem initOram_not_empty :
    ¬ ∀ (p : OramParams) (m : Mem OramArr), EmptyOram p (initOram p m) := by
  intro h
  have hsmall : ¬ EmptyOram smallOram (initOram smallOram onesMem) := by decide +kernel
  exact hsmall (h smallOram onesMem)

end OISA.Primitives
