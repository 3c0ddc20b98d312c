import OISA.Proofs.SortViews

/-!
# Correctness of the merge sorts

A merge writes the list `List.merge` of its two buffers, so the recursion leaves a sorted
permutation of the segment it is called on, whatever the element is that the variant
moves.
-/

namespace OISA.Primitives

open OISA.Lib OISA.Lib.Traced

variable {ι α : Type}

/-- Reads and writes of the element are those of a view; only elements that satisfy `wf`
are written. -/
structure ElementAccess.Lawful (el : ElementAccess ι α) (view : Mem ι → ℕ → α)
    (wf : α → Prop) : Prop where
  read_val : ∀ i m, (el.read i).val m = view m i
  read_exec : ∀ i m, (el.read i).exec m = m
  view_wf : ∀ m i, wf (view m i)
  write_view : ∀ k x m, wf x → view ((el.write k x).exec m) = Function.update (view m) k x

section Merge

variable {el : ElementAccess ι α} {view : Mem ι → ℕ → α} {wf : α → Prop}

lemma loadRange_exec (h : el.Lawful view wf) (first len : ℕ) (m : Mem ι) :
    (loadRange el first len).exec m = m := by
  have hinv := loop_invariant (fun _ _ m' => m' = m)
    (fun i (acc : List α) => do
      let x ← el.read (first + i)
      pure (acc ++ [x])) len [] m rfl (fun i _ acc m' hm => by simp [h.read_exec, hm])
  exact hinv

lemma loadRange_val (h : el.Lawful view wf) (first len : ℕ) (m : Mem ι) :
    (loadRange el first len).val m = (List.range' first len).map (view m) := by
  have hinv := loop_invariant
    (fun n (acc : List α) m' => m' = m ∧ acc = (List.range' first n).map (view m))
    (fun i (acc : List α) => do
      let x ← el.read (first + i)
      pure (acc ++ [x])) len [] m ⟨rfl, rfl⟩
    (fun i _ acc m' hm => by
      obtain ⟨rfl, rfl⟩ := hm
      simp [h.read_exec, h.read_val, List.range'_1_concat])
  exact hinv.2

lemma mergeLoop_eq_writeRest (el : ElementAccess ι α) (takeLeft : α → α → Bool)
    (xs ys : List α) (k : ℕ) :
    mergeLoop el takeLeft xs ys k = writeRest el (List.merge xs ys takeLeft) k := by
  induction hn : xs.length + ys.length generalizing xs ys k with
  | zero =>
    have hx : xs = [] := List.eq_nil_of_length_eq_zero (by omega)
    subst hx
    rw [mergeLoop, List.nil_merge]
  | succ n ih =>
    cases xs with
    | nil => rw [mergeLoop, List.nil_merge]
    | cons x xs =>
      cases ys with
      | nil =>
        rw [mergeLoop, List.merge_right]
        simp
      | cons y ys =>
        simp only [List.length_cons] at hn
        rw [mergeLoop, List.cons_merge_cons]
        split
        · rw [ih xs (y :: ys) (k + 1) (by simp; omega), writeRest]
        · rw [ih (x :: xs) ys (k + 1) (by simp; omega), writeRest]

lemma writeRest_view (h : el.Lawful view wf) (xs : List α) (hxs : ∀ x ∈ xs, wf x) (k : ℕ)
    (m : Mem ι) :
    (∀ i, i < k ∨ k + xs.length ≤ i → view ((writeRest el xs k).exec m) i = view m i) ∧
      (List.range' k xs.length).map (view ((writeRest el xs k).exec m)) = xs := by
  induction xs generalizing k m with
  | nil => exact ⟨fun _ _ => rfl, rfl⟩
  | cons x xs ih =>
    obtain ⟨hframe, hlist⟩ := ih (fun y hy => hxs y (List.mem_cons_of_mem x hy)) (k + 1)
      ((el.write k x).exec m)
    have hwrite := h.write_view k x m (hxs x List.mem_cons_self)
    simp only [writeRest, exec_bind, List.length_cons]
    refine ⟨fun i hi => ?_, ?_⟩
    · rw [hframe i (by omega), hwrite, Function.update_of_ne (by omega)]
    · rw [List.range'_succ, List.map_cons, hlist, hframe k (by omega), hwrite,
        Function.update_self]

/-- The segment of `n` elements from `l` is sorted by `le`, and nothing else changes. -/
structure SortsSegment (l n : ℕ) (le : α → α → Bool) (v w : ℕ → α) : Prop where
  frame : ∀ i, i < l ∨ l + n ≤ i → w i = v i
  sorted : ((List.range' l n).map w).Pairwise fun x y => le x y
  perm : List.Perm ((List.range' l n).map w) ((List.range' l n).map v)

def tiedWith (le : α → α → Bool) (c x : α) : Bool := le x c && le c x

structure SortsStably (l n : ℕ) (le : α → α → Bool) (v w : ℕ → α) : Prop
    extends SortsSegment l n le v w where
  stable : ∀ c, ((List.range' l n).map w).filter (tiedWith le c) =
    ((List.range' l n).map v).filter (tiedWith le c)

lemma filter_merge {le : α → α → Bool} (trans : ∀ a b c, le a b → le b c → le a c) (c : α)
    (xs ys : List α)
    (hxs : xs.Pairwise fun x y => le x y) :
    (List.merge xs ys le).filter (tiedWith le c) =
      xs.filter (tiedWith le c) ++ ys.filter (tiedWith le c) := by
  induction xs generalizing ys with
  | nil => simp
  | cons x xs ihx =>
    rw [List.pairwise_cons] at hxs
    induction ys with
    | nil => simp
    | cons y ys ihy =>
      rw [List.cons_merge_cons]
      by_cases hle : le x y = true
      · rw [if_pos hle, List.filter_cons, List.filter_cons, ihx (y :: ys) hxs.2]
        split_ifs with htied
        · rfl
        · rfl
      · rw [if_neg hle, List.filter_cons, ihy]
        split_ifs with htied
        · -- an element tied with `y` is not in the left list
          have hnone : (x :: xs).filter (tiedWith le c) = [] := by
            rw [List.filter_eq_nil_iff]
            intro z hz hzc
            unfold tiedWith at htied hzc
            rw [Bool.and_eq_true] at htied hzc
            have hzy : le z y = true := trans z c y hzc.1 htied.2
            obtain rfl | hmem := List.mem_cons.mp hz
            · exact hle hzy
            · exact hle (trans x z y (hxs.1 z hmem) hzy)
          rw [hnone, List.nil_append, List.nil_append, List.filter_cons_of_pos htied]
        · rw [List.filter_cons_of_neg htied]

lemma map_range'_congr {v w : ℕ → α} {l n : ℕ} (h : ∀ i, l ≤ i → i < l + n → w i = v i) :
    (List.range' l n).map w = (List.range' l n).map v := by
  apply List.map_congr_left
  intro i hi
  rw [List.mem_range'_1] at hi
  exact h i hi.1 hi.2

lemma merge_view (h : el.Lawful view wf) (takeLeft : α → α → Bool) (l n n' : ℕ)
    (hn : 0 < n) (m : Mem ι) :
    (∀ i, i < l ∨ l + (n + n') ≤ i →
        view ((merge el takeLeft l (l + n - 1) (l + n + n' - 1)).exec m) i = view m i) ∧
      (List.range' l (n + n')).map
          (view ((merge el takeLeft l (l + n - 1) (l + n + n' - 1)).exec m)) =
        List.merge ((List.range' l n).map (view m)) ((List.range' (l + n) n').map (view m))
          takeLeft := by
  have hlen : l + n - 1 - l + 1 = n := by omega
  have hmid : l + n - 1 + 1 = l + n := by omega
  have hlen' : l + n + n' - 1 - (l + n - 1) = n' := by omega
  set xs := List.merge ((List.range' l n).map (view m)) ((List.range' (l + n) n').map (view m))
    takeLeft with hxs
  have hexec : (merge el takeLeft l (l + n - 1) (l + n + n' - 1)).exec m =
      (writeRest el xs l).exec m := by
    rw [merge, hlen, hmid, hlen']
    simp only [exec_bind, loadRange_exec h, loadRange_val h, mergeLoop_eq_writeRest, hxs]
  have hlength : xs.length = n + n' := by
    rw [hxs, (List.merge_perm_append takeLeft).length_eq]
    simp
  have hwf : ∀ x ∈ xs, wf x := by
    intro x hx
    rw [hxs, (List.merge_perm_append takeLeft).mem_iff, List.mem_append, List.mem_map,
      List.mem_map] at hx
    rcases hx with ⟨i, -, rfl⟩ | ⟨i, -, rfl⟩
    · exact h.view_wf m i
    · exact h.view_wf m i
  rw [hexec]
  have hview := writeRest_view h xs hwf l m
  rw [hlength] at hview
  exact hview

/-- The recursion sorts the segment from `l` to `l + n`, and keeps the order of ties. -/
theorem mergeSubSort_sortsStably (h : el.Lawful view wf) (takeLeft : α → α → Bool)
    (trans : ∀ a b c, takeLeft a b → takeLeft b c → takeLeft a c)
    (total : ∀ a b, takeLeft a b || takeLeft b a) (l n : ℕ) (m : Mem ι) :
    SortsStably l (n + 1) takeLeft (view m)
      (view ((mergeSubSort el takeLeft l (l + n)).exec m)) := by
  induction n using Nat.strong_induction_on generalizing l m with
  | h n ih =>
    rw [mergeSubSort]
    by_cases hn : n = 0
    · subst hn
      rw [if_neg (by omega)]
      exact ⟨⟨fun _ _ => rfl, List.pairwise_singleton _ _, List.Perm.refl _⟩, fun _ => rfl⟩
    rw [if_pos (by omega)]
    simp only [exec_bind]
    -- the segment is cut into `a + 1` and `b + 1` elements
    obtain ⟨a, b, ha, hb, hab⟩ : ∃ a b, (l + n - l) / 2 = a ∧ a + b + 1 = n ∧ a < n ∧ b < n :=
      ⟨(l + n - l) / 2, n - 1 - (l + n - l) / 2, rfl, by omega, by omega, by omega⟩
    rw [ha]
    have hleft := ih a (by omega) l m
    set m₁ := (mergeSubSort el takeLeft l (l + a)).exec m
    have hright := ih b (by omega) (l + a + 1) m₁
    have hend : l + a + 1 + b = l + n := by omega
    rw [hend] at hright
    set m₂ := (mergeSubSort el takeLeft (l + a + 1) (l + n)).exec m₁
    have hmerge := merge_view h takeLeft l (a + 1) (b + 1) (by omega) m₂
    have hm : l + (a + 1) - 1 = l + a := by omega
    have hr : l + (a + 1) + (b + 1) - 1 = l + n := by omega
    have hsum : a + 1 + (b + 1) = n + 1 := by omega
    have hsplit : List.range' l (n + 1) = List.range' l (a + 1) ++
        List.range' (l + a + 1) (b + 1) := by
      rw [Nat.add_assoc l, List.range'_append_1, hsum]
    rw [hm, hr, hsum, ← Nat.add_assoc l a 1] at hmerge
    have hlower : (List.range' l (a + 1)).map (view m₂) =
        (List.range' l (a + 1)).map (view m₁) :=
      map_range'_congr fun i _ hi => hright.frame i (by omega)
    have hupper : (List.range' (l + a + 1) (b + 1)).map (view m₁) =
        (List.range' (l + a + 1) (b + 1)).map (view m) :=
      map_range'_congr fun i hi _ => hleft.frame i (by omega)
    refine ⟨⟨fun i hi => ?_, ?_, ?_⟩, ?_⟩
    · rw [hmerge.1 i (by omega), hright.frame i (by omega), hleft.frame i (by omega)]
    · rw [hmerge.2, hlower]
      exact List.pairwise_merge trans total _ _ hleft.sorted hright.sorted
    · rw [hmerge.2, hlower, hsplit, List.map_append]
      refine (List.merge_perm_append takeLeft).trans (hleft.perm.append ?_)
      rw [← hupper]
      exact hright.perm
    · intro c
      rw [hmerge.2, hlower, filter_merge trans c _ _ hleft.sorted, hleft.stable,
        hright.stable, hupper, hsplit, List.map_append, List.filter_append]

theorem mergeSubSort_sortsSegment (h : el.Lawful view wf) (takeLeft : α → α → Bool)
    (trans : ∀ a b c, takeLeft a b → takeLeft b c → takeLeft a c)
    (total : ∀ a b, takeLeft a b || takeLeft b a) (l n : ℕ) (m : Mem ι) :
    SortsSegment l (n + 1) takeLeft (view m)
      (view ((mergeSubSort el takeLeft l (l + n)).exec m)) :=
  (mergeSubSort_sortsStably h takeLeft trans total l n m).toSortsSegment

end Merge

section Elements

variable [DecidableEq ι]

lemma intElement_lawful (arr : ι) : (intElement arr).Lawful (readWord arr) fun _ => True where
  read_val _ _ := rfl
  read_exec _ _ := rfl
  view_wf _ _ := trivial
  write_view k x m _ := by
    funext i
    simp [readWord, intElement, Mem.get_set, Function.update_apply]

omit [DecidableEq ι] in
lemma loadBlock_val (arr : ι) (sz i : ℕ) (m : Mem ι) :
    (loadBlock arr sz i).val m = readBlock arr sz m i ∧ (loadBlock arr sz i).exec m = m := by
  have hinv := loop_invariant
    (fun n (acc : List ℤ) m' =>
      m' = m ∧ acc = (List.range n).map fun h => m.get arr (i * sz + h))
    (fun h acc => do
      let v ← load arr (i * sz + h)
      pure (acc ++ [v])) sz [] m ⟨rfl, rfl⟩
    (fun h _ acc m' hm => by
      obtain ⟨rfl, rfl⟩ := hm
      simp [List.range_succ])
  exact ⟨hinv.2, hinv.1⟩

lemma keeps_storeBlock {arr x : ι} (hx : x ≠ arr) (sz k : ℕ) (b : List ℤ) :
    Keeps (storeBlock arr sz k b) x :=
  keeps_forUpTo (fun _ => keeps_store hx _ _) sz

lemma readBlock_storeBlock (arr : ι) (sz k : ℕ) (b : List ℤ) (hb : b.length = sz)
    (m : Mem ι) :
    readBlock arr sz ((storeBlock arr sz k b).exec m) =
      Function.update (readBlock arr sz m) k b := by
  have hinv := forUpTo_invariant
    (fun n m' => n ≤ sz ∧ ∀ t h, h < sz → m'.get arr (t * sz + h) =
      if t = k ∧ h < n then b.getD h 0 else m.get arr (t * sz + h))
    (fun h => store arr (k * sz + h) (b.getD h 0)) sz m ⟨by omega, by simp⟩
    (fun n hn m' ⟨_, hm'⟩ => ⟨hn, fun t h hh => by
      rw [exec_store, Mem.get_set]
      by_cases htk : t * sz + h = k * sz + n
      · obtain ⟨rfl, rfl⟩ := digits_inj hh hn htk
        simp
      · have hne : ¬(t = k ∧ h = n) := fun ⟨h1, h2⟩ => htk (by rw [h1, h2])
        have hiff : (t = k ∧ h < n + 1) ↔ t = k ∧ h < n := by omega
        simp only [htk, and_false, if_false, hiff]
        exact hm' t h hh⟩)
  funext t
  by_cases htk : t = k
  · subst htk
    rw [Function.update_self]
    refine List.ext_getElem (by simp [hb]) fun h h1 h2 => ?_
    have hh : h < sz := by simpa using h1
    simp only [readBlock, List.getElem_map, List.getElem_range]
    rw [storeBlock, hinv.2 t h hh]
    simp [hh, List.getD, h2]
  · rw [Function.update_of_ne htk]
    apply List.map_congr_left
    intro h hh
    rw [storeBlock, hinv.2 t h (List.mem_range.mp hh)]
    simp [htk]

lemma blockElement_lawful (arr : ι) (sz : ℕ) :
    (blockElement arr sz).Lawful (readBlock arr sz) fun b => b.length = sz where
  read_val i m := (loadBlock_val arr sz i m).1
  read_exec i m := (loadBlock_val arr sz i m).2
  view_wf := length_readBlock arr sz
  write_view k x m hx := readBlock_storeBlock arr sz k x hx m

lemma twoArrayElement_lawful {main aux : ι} (hne : main ≠ aux) (szMain szAux : ℕ) :
    (twoArrayElement main aux szMain szAux).Lawful (readPair main aux szMain szAux)
      fun b => b.1.length = szMain ∧ b.2.length = szAux where
  read_val i m := by
    simp [twoArrayElement, readPair, (loadBlock_val main szMain i m).1,
      (loadBlock_val main szMain i m).2, (loadBlock_val aux szAux i m).1]
  read_exec i m := by
    simp [twoArrayElement, (loadBlock_val main szMain i m).2, (loadBlock_val aux szAux i m).2]
  view_wf m i := ⟨length_readBlock main szMain m i, length_readBlock aux szAux m i⟩
  write_view k x m hx := by
    funext i
    simp only [readPair, twoArrayElement, exec_bind]
    rw [readBlock_congr (keeps_storeBlock hne szAux k x.2 _),
      readBlock_storeBlock main szMain k x.1 hx.1, readBlock_storeBlock aux szAux k x.2 hx.2,
      readBlock_congr (keeps_storeBlock hne.symm szMain k x.1 m)]
    by_cases hik : i = k
    · subst hik; simp
    · simp [hik, readPair]

end Elements

section Frame

variable {el : ElementAccess ι α} {x : ι}

lemma keeps_writeRest (hw : ∀ k b, Keeps (el.write k b) x) (xs : List α) (k : ℕ) :
    Keeps (writeRest el xs k) x := by
  induction xs generalizing k with
  | nil => exact keeps_pure () x
  | cons y xs ih => exact (hw k y).bind fun _ => ih (k + 1)

lemma keeps_mergeSubSort (hr : ∀ i, Keeps (el.read i) x) (hw : ∀ k b, Keeps (el.write k b) x)
    (takeLeft : α → α → Bool) (l r : ℕ) : Keeps (mergeSubSort el takeLeft l r) x := by
  have hrange : ∀ first len, Keeps (loadRange el first len) x := fun first len =>
    keeps_loop (fun i _ => (hr _).bind fun _ => keeps_pure _ x) len []
  induction hn : r - l using Nat.strong_induction_on generalizing l r with
  | h n ih =>
    rw [mergeSubSort]
    split
    · refine (ih _ (by omega) _ _ rfl).bind fun _ => (ih _ (by omega) _ _ rfl).bind fun _ => ?_
      refine (hrange _ _).bind fun _ => (hrange _ _).bind fun _ => ?_
      rw [mergeLoop_eq_writeRest]
      exact keeps_writeRest hw _ l
    · exact keeps_pure () x

lemma keeps_loadBlock (arr : ι) (sz i : ℕ) : Keeps (loadBlock arr sz i) x := fun m => by
  rw [(loadBlock_val arr sz i m).2]

lemma keeps_mergeSortTwoArrayTwoKey [DecidableEq ι] {main aux : ι} (hm : x ≠ main) (ha : x ≠ aux)
    (N key1Idx : ℕ) (dir1 : Dir) (key2Idx : ℕ) (dir2 : Dir) (szMain szAux : ℕ) :
    Keeps (mergeSortTwoArrayTwoKey main aux N key1Idx dir1 key2Idx dir2 szMain szAux) x :=
  keeps_mergeSubSort
    (fun i => (keeps_loadBlock main szMain i).bind fun _ =>
      (keeps_loadBlock aux szAux i).bind fun _ => keeps_pure _ x)
    (fun k b => (keeps_storeBlock hm szMain k b.1).bind fun _ => keeps_storeBlock ha szAux k b.2)
    _ 0 (N - 1)

end Frame

end OISA.Primitives
