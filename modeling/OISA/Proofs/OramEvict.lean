import OISA.Proofs.OramFetch

/-!
# Assigning keys to the stash

The eviction loop hands every valid block that finds room on the path its place as a key, and all
other slots the key `max_int`; the loop over the empty places hands keys of such places to invalid
slots.
-/

namespace OISA.Primitives

open OISA.Lib OISA.Lib.Traced

section Scan

variable {ι : Type} [DecidableEq ι]

lemma set_get_self (m : Mem ι) (a : ι) (i : ℕ) : m.set a i (m.get a i) = m := by
  ext b j
  rw [Mem.get_set]
  split
  · rename_i h
    rw [h.1, h.2]
  · rfl

omit [DecidableEq ι] in
lemma scanOramRead_spec (base : ι) (N : ℕ) (data idx : ℤ) (m : Mem ι) :
    (scanOramRead base N data idx).val m =
        (if 0 ≤ idx ∧ idx < N then m.get base idx.toNat else data) ∧
      (scanOramRead base N data idx).exec m = m := by
  refine (loop_invariant
    (fun n d m' => d = (if 0 ≤ idx ∧ idx < n then m.get base idx.toNat else data) ∧ m' = m)
    (fun i d => cmovFrom ((i : ℤ) = idx) base i d) N data m ⟨by rw [if_neg (by omega)], rfl⟩
    (fun n _ d m' ⟨hd, hm⟩ => ?_))
  subst hm
  refine ⟨?_, rfl⟩
  simp only [cmovFrom, val_bind, val_load, val_pure, exec_load]
  by_cases hn : (n : ℤ) = idx
  · subst hn
    simp
  · have hiff : (0 ≤ idx ∧ idx < ((n + 1 : ℕ) : ℤ)) ↔ 0 ≤ idx ∧ idx < n := by omega
    simp only [hn, decide_false, Bool.false_eq_true, if_false, hiff, hd]

lemma exec_scanOramWrite (base : ι) (N : ℕ) (data idx : ℤ) (m : Mem ι) :
    (scanOramWrite base N data idx).exec m =
      if 0 ≤ idx ∧ idx < N then m.set base idx.toNat data else m := by
  refine forUpTo_invariant
    (fun n m' => m' = if 0 ≤ idx ∧ idx < n then m.set base idx.toNat data else m)
    (fun i => cmovTo ((i : ℤ) = idx) data base i) N m (by rw [if_neg (by omega)])
    (fun n _ m' hm => ?_)
  have hstep : (cmovTo ((n : ℤ) = idx) data base n).exec m' =
      m'.set base n (if (n : ℤ) = idx then data else m'.get base n) := by
    simp [cmovTo]
  rw [hstep]
  by_cases hn : (n : ℤ) = idx
  · subst hn
    rw [if_pos rfl, if_pos (by omega), hm, if_neg (by omega), Int.toNat_natCast]
  · have hiff : (0 ≤ idx ∧ idx < ((n + 1 : ℕ) : ℤ)) ↔ 0 ≤ idx ∧ idx < n := by omega
    rw [if_neg hn, set_get_self, hm]
    simp only [hiff]

end Scan

variable (p : OramParams)

def SharesLevel (accessLeaf : ℕ) (leaf : ℤ) (l : ℕ) : Prop :=
  l = 0 ∨ ∀ j ≤ l, (pushBackDiff p accessLeaf leaf).getLsbD j = false

/-- One round of the eviction loop on slot `i`: without a level the slot gets the key
`max_int`; with a level it gets the next place of that level, if it is valid. -/
lemma evictStep_spec (accessLeaf i : ℕ) (m : Mem OramArr)
    (hocc : ∀ l < p.depth, 0 ≤ (Oram.ofMem p m).occupied l ∧
      (Oram.ofMem p m).occupied l ≤ p.bucketSize) :
    let o := Oram.ofMem p m
    let s := o.slot i
    let level := (pushBack p accessLeaf s.leaf p.depth).val m
    (level = -1 ∧
      Oram.ofMem p ((evictStep p accessLeaf i).exec m) = o.setSlot i { s with key := maxInt }) ∨
      ∃ l < p.depth, ∃ k < p.bucketSize, level = l ∧ o.occupied l = k ∧
        SharesLevel p accessLeaf s.leaf l ∧ Oram.ofMem p ((evictStep p accessLeaf i).exec m) =
          ((o.setWbPath (l * p.bucketSize + k) (if s.valid ≠ 0 then i else 0)).setOccupied l
            (if s.valid ≠ 0 then k + 1 else k)).setSlot i
              { s with key := if s.valid ≠ 0 then ((l * p.bucketSize + k : ℕ) : ℤ) else maxInt } := by
  intro o s level
  have hvalid : m.get .stashInfo (infoValid i) = s.valid := rfl
  have hleaf : m.get .stashInfo (infoLeaf i) = s.leaf := rfl
  have hZ : (1 : ℤ) ≤ p.bucketSize := by exact_mod_cast p.bucketSize_pos
  rcases val_pushBack p accessLeaf s.leaf m with hlevel | ⟨l, hl, hlevel, hroom, hshare⟩
  · refine .inl ⟨hlevel, ?_⟩
    simp only [evictStep, exec_bind, val_load, exec_load, exec_pushBack, hvalid, hleaf, hlevel,
      (scanOramRead_spec _ _ _ _ _).1, (scanOramRead_spec _ _ _ _ _).2, exec_scanOramWrite]
    simp only [show ¬((0 : ℤ) ≤ -1 ∧ (-1 : ℤ) < (p.depth : ℤ)) by omega, if_false,
      show ¬((0 : ℤ) ≤ -1 * (p.bucketSize : ℤ) + 0 ∧
        -1 * (p.bucketSize : ℤ) + 0 < ((p.depth * p.bucketSize : ℕ) : ℤ)) by omega]
    simp only [ofMem_cmovTo_key, Oram.setSlot_slot_self, Oram.setSlot_setSlot]
    simp [o, s]
  · right
    obtain ⟨h0, hle⟩ := hocc l hl
    have hocc' : m.get .occupied l = o.occupied l := rfl
    obtain ⟨k, hk⟩ := Int.eq_ofNat_of_zero_le h0
    have hkZ : k < p.bucketSize := by
      have hne : (k : ℤ) ≠ p.bucketSize := by rw [← hk]; exact hroom
      have hk' : (k : ℤ) ≤ p.bucketSize := by rw [← hk]; exact hle
      omega
    replace hk : o.occupied l = (k : ℤ) := hk
    refine ⟨l, hl, k, hkZ, hlevel, hk, hshare, ?_⟩
    have hplace : ((l : ℤ) * (p.bucketSize : ℤ) + (k : ℤ)) = ((l * p.bucketSize + k : ℕ) : ℤ) := by
      push_cast
      rfl
    have hplace' : l * p.bucketSize + k < p.depth * p.bucketSize := by
      have hmul : (l + 1) * p.bucketSize ≤ p.depth * p.bucketSize := Nat.mul_le_mul_right _ hl
      rw [Nat.add_mul, Nat.one_mul] at hmul
      omega
    simp only [evictStep, exec_bind, val_load, exec_load, exec_pushBack, hvalid, hleaf, hlevel,
      (scanOramRead_spec _ _ _ _ _).1, (scanOramRead_spec _ _ _ _ _).2, exec_scanOramWrite]
    have hin : (0 : ℤ) ≤ (l : ℤ) ∧ (l : ℤ) < (p.depth : ℤ) := by omega
    have hin' : (0 : ℤ) ≤ ((l * p.bucketSize + k : ℕ) : ℤ) ∧
        ((l * p.bucketSize + k : ℕ) : ℤ) < ((p.depth * p.bucketSize : ℕ) : ℤ) := by omega
    have hlevel' : decide ((l : ℤ) > -1) = true := decide_eq_true (by omega)
    simp only [if_pos hin, Int.toNat_natCast, hocc', hk, hplace, if_pos hin', hlevel',
      Bool.and_true, ofMem_cmovTo_key, ofMem_set_occupied, ofMem_set_wbPath,
      Oram.setSlot_slot_self, Oram.setSlot_setSlot, Oram.setOccupied_slot, Oram.setWbPath_slot]
    by_cases hv : s.valid = 0
    · simp [hv, o, s]
    · simp [hv, o, s]

def Placed (accessLeaf : ℕ) (o : Oram) (j : ℕ) : Prop :=
  (o.slot j).valid ≠ 0 ∧ ∃ l < p.depth, ∃ k < p.bucketSize,
    (o.slot j).key = ((l * p.bucketSize + k : ℕ) : ℤ) ∧ (k : ℤ) < o.occupied l ∧
    SharesLevel p accessLeaf (o.slot j).leaf l ∧ o.wbPath (l * p.bucketSize + k) ≠ -1

/-- The records of `o'` are those of `o` but for the keys of the slots. -/
structure SameButKeys (o o' : Oram) : Prop where
  valid : ∀ j, (o'.slot j).valid = (o.slot j).valid
  id : ∀ j, (o'.slot j).id = (o.slot j).id
  leaf : ∀ j, (o'.slot j).leaf = (o.slot j).leaf
  data : ∀ j, (o'.slot j).data = (o.slot j).data
  tree : o'.tree = o.tree
  entry : o'.entry = o.entry
  buffer : o'.buffer = o.buffer

lemma SameButKeys.refl (o : Oram) : SameButKeys o o :=
  ⟨fun _ => rfl, fun _ => rfl, fun _ => rfl, fun _ => rfl, rfl, rfl, rfl⟩

lemma SameButKeys.trans {o o' o'' : Oram} (h : SameButKeys o o') (h' : SameButKeys o' o'') :
    SameButKeys o o'' :=
  ⟨fun j => (h'.valid j).trans (h.valid j), fun j => (h'.id j).trans (h.id j),
    fun j => (h'.leaf j).trans (h.leaf j), fun j => (h'.data j).trans (h.data j),
    h'.tree.trans h.tree, h'.entry.trans h.entry, h'.buffer.trans h.buffer⟩

lemma SameButKeys.block {o o' : Oram} (h : SameButKeys o o') (j : ℕ) :
    (o'.slot j).block = (o.slot j).block := by
  rw [Slot.block, Slot.block, h.valid, h.id, h.leaf, h.data]

lemma sameButKeys_setKey (o : Oram) (i : ℕ) (key : ℤ) :
    SameButKeys o (o.setSlot i { o.slot i with key := key }) := by
  have hslot : ∀ {α : Type} (f : Slot → α), f { o.slot i with key := key } = f (o.slot i) →
      ∀ j, f ((o.setSlot i { o.slot i with key := key }).slot j) = f (o.slot j) := by
    intro α f hf j
    by_cases hj : j = i
    · subst hj
      rw [Oram.setSlot_slot_self, hf]
    · rw [Oram.setSlot_slot_of_ne _ _ _ hj]
  exact ⟨hslot Slot.valid rfl, hslot Slot.id rfl, hslot Slot.leaf rfl, hslot Slot.data rfl, rfl,
    rfl, rfl⟩

/-- What the first `n` rounds of the eviction loop have done to `o`. -/
structure EvictedUpTo (accessLeaf : ℕ) (o : Oram) (n : ℕ) (o' : Oram) : Prop where
  same : SameButKeys o o'
  occupied : ∀ l < p.depth, 0 ≤ o'.occupied l ∧ o'.occupied l ≤ p.bucketSize
  keys : ∀ j < n, (o'.slot j).key = maxInt ∨ Placed p accessLeaf o' j
  distinct : ∀ j < n, ∀ j' < n, j ≠ j' → (o'.slot j).key = (o'.slot j').key →
    (o'.slot j).key = maxInt

variable {p}

lemma Placed.mono {accessLeaf : ℕ} {o o' : Oram} {j : ℕ} (h : Placed p accessLeaf o j)
    (hslot : o'.slot j = o.slot j) (hocc : ∀ l, o.occupied l ≤ o'.occupied l)
    (hwb : ∀ x, o.wbPath x ≠ -1 → o'.wbPath x ≠ -1) : Placed p accessLeaf o' j := by
  obtain ⟨hv, l, hl, k, hk, hkey, hlt, hshare, hpath⟩ := h
  refine ⟨by rwa [hslot], l, hl, k, hk, by rwa [hslot], ?_, by rwa [hslot], hwb _ hpath⟩
  exact lt_of_lt_of_le hlt (hocc l)

lemma EvictedUpTo.skip {accessLeaf n : ℕ} {o o' : Oram} (h : EvictedUpTo p accessLeaf o n o') :
    EvictedUpTo p accessLeaf o (n + 1) (o'.setSlot n { o'.slot n with key := maxInt }) := by
  have hother : ∀ j < n, (o'.setSlot n { o'.slot n with key := maxInt }).slot j = o'.slot j :=
    fun j hj => Oram.setSlot_slot_of_ne _ _ _ (by omega)
  refine ⟨h.same.trans (sameButKeys_setKey o' n maxInt), h.occupied, fun j hj => ?_,
    fun j hj j' hj' hne heq => ?_⟩
  · rcases Nat.lt_succ_iff_lt_or_eq.mp hj with hlt | rfl
    · rw [hother j hlt]
      exact (h.keys j hlt).imp id fun hp => hp.mono (hother j hlt) (fun _ => le_rfl) fun _ => id
    · left
      rw [Oram.setSlot_slot_self]
  · rcases Nat.lt_succ_iff_lt_or_eq.mp hj with hlt | rfl
    · rcases Nat.lt_succ_iff_lt_or_eq.mp hj' with hlt' | rfl
      · rw [hother j hlt, hother j' hlt'] at heq
        rw [hother j hlt]
        exact h.distinct j hlt j' hlt' hne heq
      · rw [heq, Oram.setSlot_slot_self]
    · rw [Oram.setSlot_slot_self]

/-- A valid slot that gets the next place of level `l`. -/
lemma EvictedUpTo.place {accessLeaf n l k : ℕ} {o o' : Oram}
    (h : EvictedUpTo p accessLeaf o n o') (hl : l < p.depth) (hk : k < p.bucketSize)
    (hocc : o'.occupied l = k) (hshare : SharesLevel p accessLeaf (o'.slot n).leaf l)
    (hv : (o'.slot n).valid ≠ 0) :
    EvictedUpTo p accessLeaf o (n + 1)
      (((o'.setWbPath (l * p.bucketSize + k) n).setOccupied l (k + 1)).setSlot n
        { o'.slot n with key := ((l * p.bucketSize + k : ℕ) : ℤ) }) := by
  set o'' := ((o'.setWbPath (l * p.bucketSize + k) n).setOccupied l (k + 1)).setSlot n
    { o'.slot n with key := ((l * p.bucketSize + k : ℕ) : ℤ) } with ho''
  have hself : o''.slot n = { o'.slot n with key := ((l * p.bucketSize + k : ℕ) : ℤ) } :=
    Oram.setSlot_slot_self _ _ _
  have hother : ∀ j < n, o''.slot j = o'.slot j :=
    fun j hj => Oram.setSlot_slot_of_ne _ _ _ (by omega)
  have hocc'' : ∀ x, o''.occupied x = if x = l then (k : ℤ) + 1 else o'.occupied x := fun x =>
    Oram.setOccupied_occupied _ _ _ x
  have hwb'' : ∀ x, o''.wbPath x =
      if x = l * p.bucketSize + k then (n : ℤ) else o'.wbPath x := fun x =>
    Oram.setWbPath_wbPath _ _ _ x
  have hold : ∀ j < n, (o''.slot j).key = maxInt ∨ Placed p accessLeaf o'' j := by
    intro j hj
    rw [hother j hj]
    refine (h.keys j hj).imp id fun hp => hp.mono (hother j hj) (fun x => ?_) fun x hx => ?_
    · rw [hocc'']
      split
      · rename_i hx
        rw [hx, hocc]
        omega
      · exact le_rfl
    · rw [hwb'']
      split
      · omega
      · exact hx
  -- the place is not the key of an earlier slot
  have hfresh : ∀ j < n, (o''.slot j).key = (o''.slot n).key → (o''.slot j).key = maxInt := by
    intro j hj heq
    rw [hother j hj] at heq ⊢
    rcases h.keys j hj with hmax | ⟨-, l', -, k', hk', hkey, hlt, -⟩
    · exact hmax
    · rw [hkey, hself] at heq
      have heq' : l' * p.bucketSize + k' = l * p.bucketSize + k := Int.ofNat_inj.mp heq
      obtain ⟨rfl, rfl⟩ := digits_inj hk' hk heq'
      rw [hocc] at hlt
      exact absurd hlt (lt_irrefl _)
  refine ⟨?_, fun x hx => ?_, fun j hj => ?_, fun j hj j' hj' hne heq => ?_⟩
  · have hkeys := h.same.trans
      (sameButKeys_setKey o' n ((l * p.bucketSize + k : ℕ) : ℤ))
    exact ⟨hkeys.valid, hkeys.id, hkeys.leaf, hkeys.data, hkeys.tree, hkeys.entry, hkeys.buffer⟩
  · rw [hocc'']
    split
    · omega
    · exact h.occupied x hx
  · rcases Nat.lt_succ_iff_lt_or_eq.mp hj with hlt | rfl
    · exact hold j hlt
    · right
      refine ⟨by rwa [hself], l, hl, k, hk, by rw [hself], ?_, by rwa [hself], ?_⟩
      · rw [hocc'', if_pos rfl]
        omega
      · rw [hwb'', if_pos rfl]
        omega
  · rcases Nat.lt_succ_iff_lt_or_eq.mp hj with hlt | rfl
    · rcases Nat.lt_succ_iff_lt_or_eq.mp hj' with hlt' | rfl
      · rw [hother j hlt, hother j' hlt'] at heq
        rw [hother j hlt]
        exact h.distinct j hlt j' hlt' hne heq
      · exact hfresh j hlt heq
    · have hlt' : j' < j := by omega
      rw [heq]
      exact hfresh j' hlt' heq.symm

variable (p)

lemma evict_evicted (accessLeaf n : ℕ) (m : Mem OramArr)
    (hocc : ∀ l < p.depth, (Oram.ofMem p m).occupied l = 0) :
    EvictedUpTo p accessLeaf (Oram.ofMem p m) n
      (Oram.ofMem p ((forUpTo n (evictStep p accessLeaf)).exec m)) := by
  refine forUpTo_invariant
    (fun n m' => EvictedUpTo p accessLeaf (Oram.ofMem p m) n (Oram.ofMem p m'))
    (evictStep p accessLeaf) n m
    ⟨SameButKeys.refl _, fun l hl => by rw [hocc l hl]; omega, fun _ h => by omega,
      fun _ h => by omega⟩
    (fun n _ m' h => ?_)
  rcases evictStep_spec p accessLeaf n m' h.occupied with
    ⟨-, hskip⟩ | ⟨l, hl, k, hk, -, ho, hshare, hstep⟩
  · rw [hskip]
    exact h.skip
  · rw [hstep]
    by_cases hv : ((Oram.ofMem p m').slot n).valid = 0
    · -- an invalid slot changes nothing but its key and an entry of `wb_path`
      have hskip := h.skip
      have hif : ∀ a b : ℤ, (if ((Oram.ofMem p m').slot n).valid ≠ 0 then a else b) = b :=
        fun a b => if_neg (not_not_intro hv)
      simp only [hif]
      have hsame : ∀ x, ((Oram.ofMem p m').setOccupied l k).occupied x =
          (Oram.ofMem p m').occupied x := fun x => by
        rw [Oram.setOccupied_occupied]
        split
        · rename_i hx
          rw [hx, ho]
        · rfl
      have hkeys := hskip.same
      refine ⟨⟨hkeys.valid, hkeys.id, hkeys.leaf, hkeys.data, hkeys.tree, hkeys.entry,
        hkeys.buffer⟩, fun x hx => ?_, fun j hj => ?_, hskip.distinct⟩
      · have hx' := h.occupied x hx
        rw [← hsame x] at hx'
        exact hx'
      · refine (hskip.keys j hj).imp id fun hp => hp.mono rfl (fun x => ?_) fun x hx => ?_
        · exact (hsame x).ge
        · change ((Oram.ofMem p m').setWbPath (l * p.bucketSize + k) 0).wbPath x ≠ -1
          rw [Oram.setWbPath_wbPath]
          split
          · decide
          · exact hx
    · have hif : ∀ a b : ℤ, (if ((Oram.ofMem p m').slot n).valid ≠ 0 then a else b) = a :=
        fun a b => if_pos hv
      simp only [hif]
      exact h.place hl hk ho hshare hv

lemma extraKeyStep_spec (x : ℕ) (ifAddExtraKey : Bool) (j : ℕ) (done : Bool) (m : Mem OramArr) :
    let o := Oram.ofMem p m
    let cond := ifAddExtraKey && !done && decide ((o.slot j).valid = 0)
    (extraKeyStep x ifAddExtraKey j done).val m = (done || cond) ∧
      Oram.ofMem p ((extraKeyStep x ifAddExtraKey j done).exec m) =
        if cond then o.setSlot j { o.slot j with key := x } else o := by
  intro o cond
  have hval : (andValid (ifAddExtraKey && !done) j fun valid => valid = 0).val m = cond :=
    val_andValid p _ _ _ _
  unfold extraKeyStep
  simp only [val_bind, exec_bind, exec_andValid, hval, ofMem_cmovTo_key, val_pure, exec_pure,
    true_and]
  cases cond with
  | false => exact Oram.setSlot_self o j
  | true => rfl

lemma extraKey_round (x : ℕ) (ifAddExtraKey : Bool) (m : Mem OramArr) :
    let o := Oram.ofMem p m
    let o' := Oram.ofMem p ((loop (extraKeyStep x ifAddExtraKey) p.stashSize false).exec m)
    ((ifAddExtraKey = true → ∀ j < p.stashSize, (o.slot j).valid ≠ 0) ∧ o' = o) ∨
      ifAddExtraKey = true ∧ ∃ f < p.stashSize, (∀ j < f, (o.slot j).valid ≠ 0) ∧
        (o.slot f).valid = 0 ∧ o' = o.setSlot f { o.slot f with key := x } := by
  intro o o'
  have hinv := loop_invariant
    (fun n done m' =>
      (done = false ∧ (ifAddExtraKey = true → ∀ j < n, (o.slot j).valid ≠ 0) ∧
        Oram.ofMem p m' = o) ∨
      (done = true ∧ ifAddExtraKey = true ∧ ∃ f < n, (∀ j < f, (o.slot j).valid ≠ 0) ∧
        (o.slot f).valid = 0 ∧ Oram.ofMem p m' = o.setSlot f { o.slot f with key := x }))
    (extraKeyStep x ifAddExtraKey) p.stashSize false m
    (.inl ⟨rfl, fun _ j hj => absurd hj (Nat.not_lt_zero j), rfl⟩)
    (fun n _ done m' h => by
      obtain ⟨hval, hmem⟩ := extraKeyStep_spec p x ifAddExtraKey n done m'
      rw [hval, hmem]
      rcases h with ⟨rfl, hvalid, ho⟩ | ⟨rfl, hadd, f, hf, hbelow, hv, ho⟩
      · rw [ho]
        by_cases hcond : (ifAddExtraKey && !false && decide ((o.slot n).valid = 0)) = true
        · right
          rw [if_pos hcond, hcond]
          simp only [Bool.not_false, Bool.and_true, Bool.and_eq_true, decide_eq_true_eq] at hcond
          exact ⟨rfl, hcond.1, n, by omega, hvalid hcond.1, hcond.2, rfl⟩
        · left
          rw [if_neg hcond, Bool.eq_false_of_not_eq_true hcond]
          refine ⟨rfl, fun hadd j hj => ?_, rfl⟩
          rcases Nat.lt_succ_iff_lt_or_eq.mp hj with hlt | rfl
          · exact hvalid hadd j hlt
          · intro hv
            exact hcond (by simp [hadd, hv])
      · right
        simp only [Bool.not_true, Bool.and_false, Bool.false_and, Bool.or_false,
          Bool.false_eq_true, if_false]
        exact ⟨trivial, hadd, f, by omega, hbelow, hv, ho⟩)
  rcases hinv with ⟨-, hvalid, ho⟩ | ⟨-, hadd, hf⟩
  · exact .inl ⟨hvalid, ho⟩
  · exact .inr ⟨hadd, hf⟩

/-- What the first `n` places of the loop over `wb_path` have done to `o`. -/
structure ExtraUpTo (o : Oram) (n : ℕ) (o' : Oram) : Prop where
  same : SameButKeys o o'
  wbPath : o'.wbPath = o.wbPath
  valids : ∀ j, (o.slot j).valid ≠ 0 → (o'.slot j).key = (o.slot j).key
  invalids : ∀ j < p.stashSize, (o.slot j).valid = 0 → (o'.slot j).key = maxInt ∨
    ∃ q < n, (o'.slot j).key = (q : ℤ) ∧ o.wbPath q = -1
  distinct : ∀ j < p.stashSize, ∀ j' < p.stashSize, (o.slot j).valid = 0 →
    (o.slot j').valid = 0 → j ≠ j' → (o'.slot j).key = (o'.slot j').key →
    (o'.slot j).key = maxInt

variable {p} in
lemma ExtraUpTo.next {o o' : Oram} {n : ℕ} (h : ExtraUpTo p o n o') : ExtraUpTo p o (n + 1) o' :=
  ⟨h.same, h.wbPath, h.valids, fun j hj hv => (h.invalids j hj hv).imp id
    fun ⟨q, hq, hkey⟩ => ⟨q, by omega, hkey⟩, h.distinct⟩

variable {p} in
lemma ExtraUpTo.give {o o' : Oram} {n f : ℕ} (h : ExtraUpTo p o n o')
    (hv : (o'.slot f).valid = 0) (hwb : o'.wbPath n = -1) :
    ExtraUpTo p o (n + 1) (o'.setSlot f { o'.slot f with key := n }) := by
  have hself : (o'.setSlot f { o'.slot f with key := n }).slot f = { o'.slot f with key := n } :=
    Oram.setSlot_slot_self _ _ _
  have hother : ∀ j, j ≠ f →
      (o'.setSlot f { o'.slot f with key := n }).slot j = o'.slot j :=
    fun j hj => Oram.setSlot_slot_of_ne _ _ _ hj
  rw [h.same.valid] at hv
  -- the keys given so far are below `n`
  have hbelow : ∀ j < p.stashSize, (o.slot j).valid = 0 → (o'.slot j).key = n →
      (o'.slot j).key = maxInt := by
    intro j hj hvj hkey
    rcases h.invalids j hj hvj with hmax | ⟨q, hq, hkey', -⟩
    · exact hmax
    · omega
  refine ⟨h.same.trans (sameButKeys_setKey o' f n), h.wbPath, fun j hvj => ?_,
    fun j hj hvj => ?_, fun j hj j' hj' hvj hvj' hne heq => ?_⟩
  · rw [hother j (fun hjf => hvj (by rw [hjf]; exact hv))]
    exact h.valids j hvj
  · by_cases hjf : j = f
    · subst hjf
      right
      rw [h.wbPath] at hwb
      exact ⟨n, by omega, by rw [hself], hwb⟩
    · rw [hother j hjf]
      exact h.next.invalids j hj hvj
  · by_cases hjf : j = f
    · subst hjf
      rw [hother j' (Ne.symm hne)] at heq
      rw [heq]
      refine hbelow j' hj' hvj' ?_
      rw [← heq, hself]
    · rw [hother j hjf] at heq ⊢
      by_cases hjf' : j' = f
      · subst hjf'
        rw [hself] at heq
        exact hbelow j hj hvj heq
      · rw [hother j' hjf'] at heq
        exact h.distinct j hj j' hj' hvj hvj' hne heq

lemma addExtraKeys_extra (m : Mem OramArr)
    (hmax : ∀ j < p.stashSize, ((Oram.ofMem p m).slot j).valid = 0 →
      ((Oram.ofMem p m).slot j).key = maxInt) :
    ExtraUpTo p (Oram.ofMem p m) (p.depth * p.bucketSize)
      (Oram.ofMem p ((addExtraKeys p).exec m)) := by
  refine forUpTo_invariant (fun n m' => ExtraUpTo p (Oram.ofMem p m) n (Oram.ofMem p m')) _ _ m
    ⟨SameButKeys.refl _, rfl, fun _ _ => rfl, fun j hj hv => .inl (hmax j hj hv),
      fun j hj j' hj' hv hv' _ _ => hmax j hj hv⟩ (fun n _ m' h => ?_)
  have hwb : m'.get .wbPath n = (Oram.ofMem p m').wbPath n := rfl
  simp only [exec_bind, val_load, exec_load, exec_pure, hwb]
  rcases extraKey_round p n (decide ((Oram.ofMem p m').wbPath n = -1)) m' with
    ⟨-, ho⟩ | ⟨hadd, f, -, -, hv, ho⟩
  · rw [ho]
    exact h.next
  · rw [ho]
    exact h.give hv (of_decide_eq_true hadd)

structure Keyed (accessLeaf : ℕ) (o o' : Oram) : Prop where
  same : SameButKeys o o'
  keys : ∀ j < p.stashSize, (o'.slot j).key = maxInt ∨
    ∃ q < p.depth * p.bucketSize, (o'.slot j).key = (q : ℤ) ∧
      ((o'.slot j).valid ≠ 0 → SharesLevel p accessLeaf (o'.slot j).leaf (q / p.bucketSize))
  distinct : ∀ j < p.stashSize, ∀ j' < p.stashSize, j ≠ j' →
    (o'.slot j).key = (o'.slot j').key → (o'.slot j).key = maxInt

lemma clearScratch_spec (m : Mem OramArr) :
    SameButKeys (Oram.ofMem p m) (Oram.ofMem p ((clearScratch p).exec m)) ∧
      ∀ l < p.depth, (Oram.ofMem p ((clearScratch p).exec m)).occupied l = 0 := by
  set m₁ := (forUpTo (p.depth * p.bucketSize) fun i => store OramArr.wbPath i (-1)).exec m
  have h1 : SameButKeys (Oram.ofMem p m) (Oram.ofMem p m₁) := by
    refine forUpTo_invariant (fun _ m' => SameButKeys (Oram.ofMem p m) (Oram.ofMem p m')) _ _ m
      (SameButKeys.refl _) (fun n _ m' h => ?_)
    rw [exec_store, ofMem_set_wbPath]
    exact ⟨h.valid, h.id, h.leaf, h.data, h.tree, h.entry, h.buffer⟩
  have h2 := forUpTo_invariant
    (fun n m' => SameButKeys (Oram.ofMem p m) (Oram.ofMem p m') ∧
      ∀ l < n, (Oram.ofMem p m').occupied l = 0)
    (fun i => store OramArr.occupied i 0) p.depth m₁ ⟨h1, fun _ h => by omega⟩
    (fun n _ m' ⟨h, hocc⟩ => by
      rw [exec_store, ofMem_set_occupied]
      refine ⟨⟨h.valid, h.id, h.leaf, h.data, h.tree, h.entry, h.buffer⟩, fun l hl => ?_⟩
      rw [Oram.setOccupied_occupied]
      split
      · rfl
      · exact hocc l (by omega))
  exact h2

lemma assignKeys_keyed (accessLeaf : ℕ) (m : Mem OramArr) :
    Keyed p accessLeaf (Oram.ofMem p m)
      (Oram.ofMem p ((assignKeys p accessLeaf).exec m)) := by
  have hZ := p.bucketSize_pos
  obtain ⟨hclear, hocc⟩ := clearScratch_spec p m
  set m₁ := (clearScratch p).exec m
  have hevict := evict_evicted p accessLeaf p.stashSize m₁ hocc
  set m₂ := (forUpTo p.stashSize (evictStep p accessLeaf)).exec m₁
  have hextra := addExtraKeys_extra p m₂ (fun j hj hv => by
    rcases hevict.keys j hj with hmax | hplaced
    · exact hmax
    · exact absurd hv hplaced.1)
  have hexec : (assignKeys p accessLeaf).exec m = (addExtraKeys p).exec m₂ := by
    simp only [assignKeys, exec_bind]
    rfl
  rw [hexec]
  set o₂ := Oram.ofMem p m₂
  set o₃ := Oram.ofMem p ((addExtraKeys p).exec m₂)
  -- a valid and an invalid slot have no common key, for one place is taken and the other not
  have hmixed : ∀ j < p.stashSize, ∀ j' < p.stashSize, (o₂.slot j).valid ≠ 0 →
      (o₂.slot j').valid = 0 → (o₃.slot j).key = (o₃.slot j').key →
      (o₃.slot j).key = maxInt := by
    intro j hj j' hj' hv hv' heq
    rw [hextra.valids j hv] at heq ⊢
    rcases hevict.keys j hj with hmax | ⟨-, l, -, k, -, hkey, -, -, htaken⟩
    · exact hmax
    · rcases hextra.invalids j' hj' hv' with hmax' | ⟨q, -, hkey', hempty⟩
      · rw [heq, hmax']
      · rw [hkey, hkey'] at heq
        rw [Int.ofNat_inj.mp heq] at htaken
        exact absurd hempty htaken
  refine ⟨(hclear.trans hevict.same).trans hextra.same, fun j hj => ?_,
    fun j hj j' hj' hne heq => ?_⟩
  · by_cases hv : (o₂.slot j).valid = 0
    · refine (hextra.invalids j hj hv).imp id fun ⟨q, hq, hkey, _⟩ => ⟨q, hq, hkey, fun hv' => ?_⟩
      rw [hextra.same.valid] at hv'
      exact absurd hv hv'
    · rw [hextra.valids j hv, hextra.same.leaf]
      refine (hevict.keys j hj).imp id fun ⟨_, l, hl, k, hk, hkey, _, hshare, _⟩ => ?_
      have hmul : (l + 1) * p.bucketSize ≤ p.depth * p.bucketSize := Nat.mul_le_mul_right _ hl
      rw [Nat.add_mul, Nat.one_mul] at hmul
      refine ⟨l * p.bucketSize + k, by omega, hkey, fun _ => ?_⟩
      rw [Nat.mul_comm, Nat.mul_add_div hZ, Nat.div_eq_of_lt hk, Nat.add_zero]
      exact hshare
  · by_cases hv : (o₂.slot j).valid = 0
    · by_cases hv' : (o₂.slot j').valid = 0
      · exact hextra.distinct j hj j' hj' hv hv' hne heq
      · rw [heq]
        exact hmixed j' hj' j hj hv' hv heq.symm
    · by_cases hv' : (o₂.slot j').valid = 0
      · exact hmixed j hj j' hj' hv hv' heq
      · rw [hextra.valids j hv, hextra.valids j' hv'] at heq
        rw [hextra.valids j hv]
        exact hevict.distinct j hj j' hj' hne heq

end OISA.Primitives
