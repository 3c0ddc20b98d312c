import OISA.Proofs.TwoKeySorting

/-!
# Stability of the merge sorts

The five merge sorts put the elements in the order of their keys, keep the order of those with
equal keys, and move the blocks of the two arrays together, whatever the length and the
directions are.
-/

namespace OISA.Primitives

open OISA.Lib OISA.Lib.Traced

variable {ι α κ β : Type}

/-- The first `n` elements of `v` are put in the order of their keys. -/
structure SortsByKey [DecidableEq κ] (n : ℕ) (key : α → κ) (le : κ → κ → Prop) (v w : ℕ → α) :
    Prop where
  sorted : ∀ i j, i ≤ j → j < n → le (key (w i)) (key (w j))
  perm : ((List.range n).map w).Perm ((List.range n).map v)
  stable : ∀ k, ((List.range n).map w).filter (fun x => key x = k) =
    ((List.range n).map v).filter fun x => key x = k
  frame : ∀ i, n ≤ i → w i = v i

section Sorts

variable [DecidableEq κ] [LinearOrder β] {el : ElementAccess ι α} {view : Mem ι → ℕ → α}
  {wf : α → Prop} {takeLeft : α → α → Bool} {key : α → κ} {le : κ → κ → Prop} {rank : κ → β}

/-- A test that compares ranks sorts by the keys that have these ranks. -/
lemma mergeSubSort_sortsByKey (h : el.Lawful view wf) (hrank : Function.Injective rank)
    (hle : ∀ p q, rank p ≤ rank q ↔ le p q)
    (htake : ∀ x y, takeLeft x y = true ↔ le (key x) (key y)) (n : ℕ) (m : Mem ι) :
    SortsByKey n key le (view m) (view ((mergeSubSort el takeLeft 0 (n - 1)).exec m)) := by
  have htake' : ∀ x y, takeLeft x y = true ↔ rank (key x) ≤ rank (key y) := by
    intro x y
    rw [htake, hle]
  cases n with
  | zero =>
    have hexec : (mergeSubSort el takeLeft 0 (0 - 1)).exec m = m := by
      rw [mergeSubSort, if_neg (by omega)]
      rfl
    rw [hexec]
    exact ⟨fun i j _ hj => absurd hj (by omega), List.Perm.refl _, fun _ => rfl, fun _ _ => rfl⟩
  | succ n =>
    have hsorts := mergeSubSort_sortsStably h takeLeft
      (fun a b c hab hbc => by rw [htake'] at hab hbc ⊢; exact hab.trans hbc)
      (fun a b => by rw [Bool.or_eq_true, htake', htake']; exact le_total _ _) 0 n m
    rw [Nat.zero_add] at hsorts
    have hrange : List.range' 0 (n + 1) = List.range (n + 1) := List.range_eq_range'.symm
    refine ⟨?_, ?_, ?_, ?_⟩
    · intro i j hij hj
      rw [← htake]
      obtain rfl | hlt := Nat.eq_or_lt_of_le hij
      · rw [htake']
      · have hpair := List.pairwise_iff_getElem.mp hsorts.sorted i j (by simp; omega)
          (by simpa using hj) hlt
        simpa using hpair
    · rw [← hrange]
      exact hsorts.perm
    · intro k
      rw [← hrange]
      by_cases hk : ∃ c ∈ (List.range' 0 (n + 1)).map (view m), key c = k
      · obtain ⟨c, -, rfl⟩ := hk
        have htied : tiedWith takeLeft c = fun x => decide (key x = key c) := by
          funext x
          apply Bool.eq_iff_iff.mpr
          unfold tiedWith
          rw [Bool.and_eq_true, htake', htake', decide_eq_true_eq, ← le_antisymm_iff,
            hrank.eq_iff]
        rw [← htied]
        exact hsorts.stable c
      · -- no element has this key
        have hnone : ∀ x ∈ (List.range' 0 (n + 1)).map (view m), key x ≠ k :=
          fun x hx heq => hk ⟨x, hx, heq⟩
        rw [List.filter_eq_nil_iff.mpr fun x hx => by
            simpa using hnone x (hsorts.perm.mem_iff.mp hx),
          List.filter_eq_nil_iff.mpr fun x hx => by simpa using hnone x hx]
    · intro i hi
      exact hsorts.frame i (Or.inr (by omega))

end Sorts

lemma takeLeftKey_iff (dir : Dir) (x y : ℤ) : takeLeftKey dir x y = true ↔ dir.Le x y := by
  cases dir <;> simp [takeLeftKey, Dir.Le]

/-- The one-key and the two-key merge sorts, of words, of blocks and of the blocks of two arrays.
-/
theorem mergeSort_sortsByKey [DecidableEq ι] (m : Mem ι) (arr main aux : ι) (hne : main ≠ aux)
    (N blockSz blockSzAux : ℕ) (keyIdx key1Idx key2Idx : Fin blockSz) (dir dir1 dir2 : Dir) :
    SortsByKey N id dir.Le (readWord arr m)
        (readWord arr ((mergeSortInt arr N dir).exec m)) ∧
      SortsByKey N (fun b => b.getD keyIdx 0) dir.Le (readBlock arr blockSz m)
        (readBlock arr blockSz ((mergeSortBlock arr N keyIdx dir blockSz).exec m)) ∧
      SortsByKey N (keyPair key1Idx key2Idx) (LexLe (dir1, dir2)) (readBlock arr blockSz m)
        (readBlock arr blockSz
          ((mergeSortGeneral arr N blockSz key1Idx dir1 key2Idx dir2).exec m)) ∧
      SortsByKey N (fun b => b.1.getD keyIdx 0) dir.Le (readPair main aux blockSz blockSzAux m)
        (readPair main aux blockSz blockSzAux
          ((mergeSortTwoArray main aux N keyIdx dir blockSz blockSzAux).exec m)) ∧
      SortsByKey N (fun b => keyPair key1Idx key2Idx b.1) (LexLe (dir1, dir2))
        (readPair main aux blockSz blockSzAux m)
        (readPair main aux blockSz blockSzAux
          ((mergeSortTwoArrayTwoKey main aux N key1Idx dir1 key2Idx dir2 blockSz
            blockSzAux).exec m)) := by
  have hone : ∀ p q, dir.key p ≤ dir.key q ↔ dir.Le p q := fun _ _ => Dir.key_le_key
  have htwo : ∀ p q, lexKey (dir1, dir2) p ≤ lexKey (dir1, dir2) q ↔ LexLe (dir1, dir2) p q :=
    fun _ _ => lexKey_le_iff
  refine ⟨?_, ?_, ?_, ?_, ?_⟩
  · apply mergeSubSort_sortsByKey (intElement_lawful arr) dir.key_injective hone
    exact fun x y => takeLeftKey_iff dir x y
  · apply mergeSubSort_sortsByKey (blockElement_lawful arr blockSz) dir.key_injective hone
    exact fun x y => takeLeftKey_iff dir _ _
  · apply mergeSubSort_sortsByKey (blockElement_lawful arr blockSz)
      (lexKey_injective (dir1, dir2)) htwo
    exact fun x y => takeLeftTwoKey_iff (dir1, dir2) _ _ _ _
  · apply mergeSubSort_sortsByKey (twoArrayElement_lawful hne blockSz blockSzAux)
      dir.key_injective hone
    exact fun x y => takeLeftKey_iff dir _ _
  · apply mergeSubSort_sortsByKey (twoArrayElement_lawful hne blockSz blockSzAux)
      (lexKey_injective (dir1, dir2)) htwo
    exact fun x y => takeLeftTwoKey_iff (dir1, dir2) _ _ _ _

/-- Three pairs of blocks with mixed directions -/
theorem mergeSort_sortsByKey_three :
    SortsByKey 3 (fun b => keyPair 0 1 b.1) (LexLe (.ascending, .descending))
      (readPair 0 1 2 1 ⟨fun _ i => i⟩)
      (readPair 0 1 2 1 ((mergeSortTwoArrayTwoKey (0 : Fin 2) 1 3 0 .ascending 1 .descending 2
        1).exec ⟨fun _ i => i⟩)) :=
  (mergeSort_sortsByKey ⟨fun _ i => i⟩ (0 : Fin 2) 0 1 (by decide) 3 2 1 0 0 1
    .ascending .ascending .descending).2.2.2.2

end OISA.Primitives
