import OISA.Proofs.OramRuns

/-!
# The places of a write back

The eviction as a plan: which slot gets which place of the path, and which entries of `wb_path` it
overwrites.
-/

namespace OISA.Primitives

open OISA.Lib OISA.Lib.Traced

structure Plan where
  occupied : ℕ → ℤ
  place : ℕ → Option ℕ
  marked : ℕ → Bool

variable (p : OramParams)

def pushLevel (accessLeaf : ℕ) (occupied : ℕ → ℤ) (leaf : ℤ) : ℤ :=
  (pushBack p accessLeaf leaf p.depth).val ⟨fun _ l => occupied l⟩

def Plan.mark (P : Plan) (q : ℕ) : Plan := { P with marked := Function.update P.marked q true }

/-- The slot `i` gets the place `q` of level `l`. -/
def Plan.take (P : Plan) (i l q : ℕ) : Plan where
  occupied := Function.update P.occupied l (P.occupied l + 1)
  place := Function.update P.place i (some q)
  marked := Function.update P.marked q true

/-- The slot `i` is `s`. A valid slot takes the next place of its level, an invalid slot
marks it. -/
def Plan.next (accessLeaf i : ℕ) (s : Slot) (P : Plan) : Plan :=
  let level := pushLevel p accessLeaf P.occupied s.leaf
  if level = -1 then P
  else
    let l := level.toNat
    let q := l * p.bucketSize + (P.occupied l).toNat
    if s.valid = 0 then P.mark q else P.take i l q

def plan (accessLeaf : ℕ) (slot : ℕ → Slot) : ℕ → Plan
  | 0 => ⟨fun _ => 0, fun _ => none, fun _ => false⟩
  | n + 1 => (plan accessLeaf slot n).next p accessLeaf n (slot n)

lemma pushBack_congr (accessLeaf : ℕ) (leaf : ℤ) {m m' : Mem OramArr}
    (h : ∀ l < p.depth, m.get .occupied l = m'.get .occupied l) :
    (pushBack p accessLeaf leaf p.depth).val m =
      (pushBack p accessLeaf leaf p.depth).val m' := by
  have hD := p.depth_le_fifteen
  have hpos := p.depth_pos
  have hfull : (fullMask p p.depth).val m = (fullMask p p.depth).val m' := by
    apply BitVec.eq_of_getLsbD_eq
    intro i _
    rw [getLsbD_fullMask p _ (by omega), getLsbD_fullMask p _ (by omega), decide_eq_decide]
    exact and_congr_right fun hi => by rw [h i hi]
  rw [val_pushBack_eq, val_pushBack_eq, hfull, h 0 (by omega)]

/-- The state `o'` after the rounds of the eviction for the first `n` slots follows the plan
for the slots of `o`. -/
structure Follows (accessLeaf : ℕ) (o : Oram) (n : ℕ) (o' : Oram) : Prop where
  occupied : ∀ l < p.depth, o'.occupied l = (plan p accessLeaf o.slot n).occupied l
  places : ∀ j q, (plan p accessLeaf o.slot n).place j = some q →
    j < n ∧ (o.slot j).valid ≠ 0 ∧ q < p.depth * p.bucketSize ∧ (o'.slot j).key = (q : ℤ)
  others : ∀ j < n, (plan p accessLeaf o.slot n).place j = none → (o'.slot j).key = maxInt
  wbPath : ∀ q < p.depth * p.bucketSize,
    (o'.wbPath q = -1 ↔ (plan p accessLeaf o.slot n).marked q = false)

variable {p}

lemma Follows.evictStep {accessLeaf n : ℕ} {o : Oram} {m : Mem OramArr}
    (h : Follows p accessLeaf o n (Oram.ofMem p m))
    (he : EvictedUpTo p accessLeaf o n (Oram.ofMem p m)) :
    Follows p accessLeaf o (n + 1) (Oram.ofMem p ((evictStep p accessLeaf n).exec m)) := by
  have hlevel : (pushBack p accessLeaf (o.slot n).leaf p.depth).val m =
      pushLevel p accessLeaf (plan p accessLeaf o.slot n).occupied (o.slot n).leaf :=
    pushBack_congr p _ _ h.occupied
  have hother : ∀ (o' : Oram) (s : Slot), ∀ j < n, (o'.setSlot n s).slot j = o'.slot j :=
    fun o' s j hj => Oram.setSlot_slot_of_ne _ _ _ (by omega)
  have hspec := evictStep_spec p accessLeaf n m he.occupied
  simp only [he.same.valid n, he.same.leaf n, hlevel] at hspec
  rcases hspec with ⟨hl, hstep⟩ | ⟨l, hl, k, hk, hlk, hocc, -, hstep⟩
  · -- no level
    have hplan : plan p accessLeaf o.slot (n + 1) = plan p accessLeaf o.slot n := by
      rw [plan, Plan.next]
      simp only [hl, if_true]
    rw [hstep]
    refine ⟨fun x hx => ?_, fun j q hq => ?_, fun j hj hq => ?_, fun q hq => ?_⟩
    · rw [hplan]
      exact h.occupied x hx
    · rw [hplan] at hq
      obtain ⟨hj, hrest⟩ := h.places j q hq
      rw [hother _ _ j hj]
      exact ⟨by omega, hrest⟩
    · rw [hplan] at hq
      rcases Nat.lt_succ_iff_lt_or_eq.mp hj with hlt | rfl
      · rw [hother _ _ j hlt]
        exact h.others j hlt hq
      · rw [Oram.setSlot_slot_self]
    · rw [hplan]
      exact h.wbPath q hq
  · have hq : l * p.bucketSize + k < p.depth * p.bucketSize := by
      have hmul : (l + 1) * p.bucketSize ≤ p.depth * p.bucketSize := Nat.mul_le_mul_right _ hl
      rw [Nat.add_mul, Nat.one_mul] at hmul
      omega
    have hocc' : (plan p accessLeaf o.slot n).occupied l = k := by rw [← h.occupied l hl, hocc]
    have hplan : plan p accessLeaf o.slot (n + 1) =
        if (o.slot n).valid = 0 then (plan p accessLeaf o.slot n).mark (l * p.bucketSize + k)
        else (plan p accessLeaf o.slot n).take n l (l * p.bucketSize + k) := by
      rw [plan, Plan.next]
      simp only [hlk, Int.toNat_natCast, hocc', if_neg (by omega : ¬ (l : ℤ) = -1)]
    have hmark : ∀ x < p.depth * p.bucketSize, ∀ v : ℤ, v ≠ -1 →
        (((Oram.ofMem p m).setWbPath (l * p.bucketSize + k) v).wbPath x = -1 ↔
          Function.update (plan p accessLeaf o.slot n).marked (l * p.bucketSize + k) true x =
            false) := by
      intro x hx v hv
      rw [Oram.setWbPath_wbPath, Function.update_apply]
      split
      · simp [hv]
      · exact h.wbPath x hx
    rw [hstep]
    by_cases hv : (o.slot n).valid = 0
    · rw [if_pos hv] at hplan
      simp only [hv, ne_eq, not_true_eq_false, if_false]
      refine ⟨fun x hx => ?_, fun j q hq => ?_, fun j hj hq => ?_, fun q hq => ?_⟩
      · rw [hplan, Oram.setSlot_occupied, Oram.setOccupied_occupied, Plan.mark,
          ← h.occupied x hx]
        split
        · rename_i hx
          rw [hx, hocc]
        · rfl
      · rw [hplan] at hq
        obtain ⟨hj, hrest⟩ := h.places j q hq
        rw [hother _ _ j hj]
        exact ⟨by omega, hrest⟩
      · rw [hplan] at hq
        rcases Nat.lt_succ_iff_lt_or_eq.mp hj with hlt | rfl
        · rw [hother _ _ j hlt]
          exact h.others j hlt hq
        · rw [Oram.setSlot_slot_self]
      · rw [hplan]
        exact hmark q hq 0 (by decide)
    · rw [if_neg hv] at hplan
      simp only [hv, ne_eq, not_false_eq_true, if_true]
      refine ⟨fun x hx => ?_, fun j q' hq' => ?_, fun j hj hq' => ?_, fun q hq => ?_⟩
      · rw [hplan, Oram.setSlot_occupied, Oram.setOccupied_occupied, Oram.setWbPath_occupied]
        simp only [Plan.take, Function.update_apply, hocc', h.occupied x hx]
      · rw [hplan, Plan.take] at hq'
        by_cases hjn : j = n
        · subst hjn
          have heq : l * p.bucketSize + k = q' := by simpa using hq'
          rw [Oram.setSlot_slot_self]
          exact ⟨by omega, hv, heq ▸ hq, by rw [heq]⟩
        · have hold : (plan p accessLeaf o.slot n).place j = some q' := by
            simpa [hjn] using hq'
          obtain ⟨hj, hrest⟩ := h.places j q' hold
          rw [hother _ _ j hj]
          exact ⟨by omega, hrest⟩
      · rw [hplan, Plan.take] at hq'
        by_cases hjn : j = n
        · subst hjn
          simp at hq'
        · have hold : (plan p accessLeaf o.slot n).place j = none := by
            simpa [hjn] using hq'
          rw [hother _ _ j (by omega)]
          exact h.others j (by omega) hold
      · rw [hplan]
        exact hmark q hq n (by omega)

variable (p)

def Oram.plan (accessLeaf : ℕ) (o : Oram) : Plan :=
  Primitives.plan p accessLeaf o.slot p.stashSize

lemma evict_follows (accessLeaf : ℕ) (m : Mem OramArr)
    (hocc : ∀ l < p.depth, (Oram.ofMem p m).occupied l = 0)
    (hwb : ∀ q < p.depth * p.bucketSize, (Oram.ofMem p m).wbPath q = -1) :
    Follows p accessLeaf (Oram.ofMem p m) p.stashSize
      (Oram.ofMem p ((evict p accessLeaf).exec m)) := by
  have hrounds : ∀ n, Follows p accessLeaf (Oram.ofMem p m) n
      (Oram.ofMem p ((forUpTo n (evictStep p accessLeaf)).exec m)) := by
    intro n
    induction n with
    | zero =>
      refine ⟨fun l hl => hocc l hl, fun j q hq => ?_, fun j hj => absurd hj (Nat.not_lt_zero j),
        fun q hq => ?_⟩
      · cases hq
      · simp [plan, hwb q hq]
    | succ n ih =>
      rw [forUpTo_succ, exec_bind]
      exact ih.evictStep (evict_evicted p accessLeaf n m hocc)
  exact hrounds p.stashSize

/-- What the first `n` places of the loop over `wb_path` have done to `o`: the last empty
place is the key of the first invalid slot. -/
def DummyUpTo (o : Oram) (n : ℕ) (o' : Oram) : Prop :=
  ((∀ j, (o'.slot j).key = (o.slot j).key) ∧
      ((∀ q < n, o.wbPath q ≠ -1) ∨ ∀ j < p.stashSize, (o.slot j).valid ≠ 0)) ∨
    ∃ f < p.stashSize, (o.slot f).valid = 0 ∧ (∀ j < f, (o.slot j).valid ≠ 0) ∧
      ∃ q < n, o.wbPath q = -1 ∧ (∀ q' < n, o.wbPath q' = -1 → q' ≤ q) ∧
        (o'.slot f).key = (q : ℤ) ∧ ∀ j, j ≠ f → (o'.slot j).key = (o.slot j).key

lemma addExtraKeys_dummy (m : Mem OramArr) :
    DummyUpTo p (Oram.ofMem p m) (p.depth * p.bucketSize)
      (Oram.ofMem p ((addExtraKeys p).exec m)) := by
  refine (forUpTo_invariant (fun n m' => DummyUpTo p (Oram.ofMem p m) n (Oram.ofMem p m') ∧
    SameButKeys (Oram.ofMem p m) (Oram.ofMem p m') ∧
    (Oram.ofMem p m').wbPath = (Oram.ofMem p m).wbPath) _ _ m
    ⟨.inl ⟨fun _ => rfl, .inl fun q hq => absurd hq (Nat.not_lt_zero q)⟩, SameButKeys.refl _,
      rfl⟩ (fun n _ m' ⟨h, hsame, hwbPath⟩ => ?_)).1
  have hwb : m'.get .wbPath n = (Oram.ofMem p m').wbPath n := rfl
  simp only [exec_bind, val_load, exec_load, exec_pure, hwb]
  set o := Oram.ofMem p m
  rcases extraKey_round p n (decide ((Oram.ofMem p m').wbPath n = -1)) m' with
    ⟨hfull, ho⟩ | ⟨hadd, f, hf, hbelow, hv, ho⟩
  · -- the place is marked, or no slot is invalid
    rw [ho]
    refine ⟨?_, hsame, hwbPath⟩
    rw [decide_eq_true_eq, hwbPath] at hfull
    simp only [hsame.valid] at hfull
    rcases h with ⟨hkeys, hnone⟩ | ⟨f, hf, hv, hbelow, q, hq, hwbq, hlast, hkey, hother⟩
    · refine .inl ⟨hkeys, ?_⟩
      rcases hnone with hmarked | hvalid
      · by_cases hn : o.wbPath n = -1
        · exact .inr (hfull hn)
        · left
          intro q hq
          rcases Nat.lt_succ_iff_lt_or_eq.mp hq with hlt | rfl
          · exact hmarked q hlt
          · exact hn
      · exact .inr hvalid
    · refine .inr ⟨f, hf, hv, hbelow, q, by omega, hwbq, fun q' hq' hwb' => ?_, hkey, hother⟩
      rcases Nat.lt_succ_iff_lt_or_eq.mp hq' with hlt | rfl
      · exact hlast q' hlt hwb'
      · exact absurd hv (hfull hwb' f hf)
  · rw [ho]
    rw [decide_eq_true_eq, hwbPath] at hadd
    rw [hsame.valid] at hv
    simp only [hsame.valid] at hbelow
    refine ⟨.inr ⟨f, hf, hv, hbelow, n, by omega, hadd, fun q' hq' _ => by omega, ?_,
      fun j hj => ?_⟩, hsame.trans (sameButKeys_setKey _ _ _), hwbPath⟩
    · rw [Oram.setSlot_slot_self]
    · rw [Oram.setSlot_slot_of_ne _ _ _ hj]
      rcases h with ⟨hkeys, -⟩ | ⟨f', -, hv', hbelow', -, -, -, -, -, hother⟩
      · exact hkeys j
      · have hff : f' = f := by
          rcases Nat.lt_trichotomy f' f with hlt | heq | hgt
          · exact absurd hv' (hbelow f' hlt)
          · exact heq
          · exact absurd hv (hbelow' f hgt)
        exact hother j (hff ▸ hj)

section Kept

variable (accessLeaf : ℕ) (o : Oram)

/-- The place `q` is the place of a slot. -/
def Taken (q : ℕ) : Prop := ∃ i < p.stashSize, (o.plan p accessLeaf).place i = some q

/-- The place `q` is the last one that nobody has marked, and there is a slot for its
dummy. -/
def Dummy (q : ℕ) : Prop :=
  (∃ j < p.stashSize, (o.slot j).valid = 0) ∧ q < p.depth * p.bucketSize ∧
    (o.plan p accessLeaf).marked q = false ∧
    ∀ q' < p.depth * p.bucketSize, (o.plan p accessLeaf).marked q' = false → q' ≤ q

def Kept (q : ℕ) : Prop := Taken p accessLeaf o q ∨ Dummy p accessLeaf o q

structure KeyedByPlan (o' : Oram) : Prop where
  places : ∀ i q, (o.plan p accessLeaf).place i = some q → i < p.stashSize ∧
    (o.slot i).valid ≠ 0 ∧ q < p.depth * p.bucketSize ∧ (o'.slot i).key = (q : ℤ)
  others : ∀ i < p.stashSize, (o.plan p accessLeaf).place i = none →
    (o'.slot i).key = maxInt ∨
      (o.slot i).valid = 0 ∧ ∃ q, Dummy p accessLeaf o q ∧ (o'.slot i).key = (q : ℤ)
  dummy : ∀ q, Dummy p accessLeaf o q → ∃ i < p.stashSize, (o.slot i).valid = 0 ∧
    (o'.slot i).key = (q : ℤ)

end Kept

lemma clearScratch_slot (m : Mem OramArr) :
    (Oram.ofMem p ((clearScratch p).exec m)).slot = (Oram.ofMem p m).slot ∧
      ∀ q < p.depth * p.bucketSize,
        (Oram.ofMem p ((clearScratch p).exec m)).wbPath q = -1 := by
  set m₁ := (forUpTo (p.depth * p.bucketSize) fun i => store OramArr.wbPath i (-1)).exec m
  have h1 := forUpTo_invariant
    (fun n m' => (Oram.ofMem p m').slot = (Oram.ofMem p m).slot ∧
      ∀ q < n, (Oram.ofMem p m').wbPath q = -1)
    (fun i => store OramArr.wbPath i (-1)) (p.depth * p.bucketSize) m
    ⟨rfl, fun q hq => absurd hq (Nat.not_lt_zero q)⟩
    (fun n _ m' ⟨hslot, hwb⟩ => by
      rw [exec_store, ofMem_set_wbPath]
      refine ⟨hslot, fun q hq => ?_⟩
      rw [Oram.setWbPath_wbPath]
      split
      · rfl
      · exact hwb q (by omega))
  have h2 := forUpTo_invariant
    (fun _ m' => (Oram.ofMem p m').slot = (Oram.ofMem p m).slot ∧
      ∀ q < p.depth * p.bucketSize, (Oram.ofMem p m').wbPath q = -1)
    (fun i => store OramArr.occupied i 0) p.depth m₁ h1
    (fun n _ m' h => by
      rw [exec_store, ofMem_set_occupied]
      exact h)
  exact h2

lemma assignKeys_keyedByPlan (accessLeaf : ℕ) (m : Mem OramArr) :
    KeyedByPlan p accessLeaf (Oram.ofMem p m)
      (Oram.ofMem p ((assignKeys p accessLeaf).exec m)) := by
  obtain ⟨hslot, hwb⟩ := clearScratch_slot p m
  obtain ⟨-, hocc⟩ := clearScratch_spec p m
  set m₁ := (clearScratch p).exec m
  have hfollows := evict_follows p accessLeaf m₁ hocc hwb
  have hevict := evict_evicted p accessLeaf p.stashSize m₁ hocc
  change EvictedUpTo p accessLeaf _ _ (Oram.ofMem p ((evict p accessLeaf).exec m₁)) at hevict
  set m₂ := (evict p accessLeaf).exec m₁
  have hextra := addExtraKeys_dummy p m₂
  have hexec : (assignKeys p accessLeaf).exec m = (addExtraKeys p).exec m₂ := by
    simp only [assignKeys, exec_bind]
    rfl
  rw [hexec]
  have hplan : (Oram.ofMem p m).plan p accessLeaf =
      plan p accessLeaf (Oram.ofMem p m₁).slot p.stashSize := by
    rw [hslot]
    rfl
  have hplaces := hfollows.places
  have hothers := hfollows.others
  have hwbPath := hfollows.wbPath
  rw [← hplan] at hplaces hothers hwbPath
  have hvalid := hevict.same.valid
  simp only [hslot] at hplaces hvalid
  set o := Oram.ofMem p m
  set o₂ := Oram.ofMem p m₂
  -- the dummy is the last entry -1 of `wb_path`
  have hdummy : ∀ q, Dummy p accessLeaf o q ↔ (∃ j < p.stashSize, (o.slot j).valid = 0) ∧
      q < p.depth * p.bucketSize ∧ o₂.wbPath q = -1 ∧
      ∀ q' < p.depth * p.bucketSize, o₂.wbPath q' = -1 → q' ≤ q := by
    intro q
    refine and_congr_right fun _ => and_congr_right fun hq => ?_
    rw [hwbPath q hq]
    refine and_congr_right fun _ => forall₂_congr fun q' hq' => ?_
    rw [hwbPath q' hq']
  rcases hextra with ⟨hkeys, hnone⟩ | ⟨f, hf, hv, -, q, hq, hwbq, hlast, hkey, hother⟩
  · refine ⟨fun i q hi => ?_, fun i hi hplace => ?_, fun q hd => ?_⟩
    · rw [hkeys]
      exact hplaces i q hi
    · rw [hkeys]
      exact .inl (hothers i hi hplace)
    · obtain ⟨⟨j, hj, hvj⟩, hq, hwbq, -⟩ := (hdummy q).mp hd
      rcases hnone with hmarked | hall
      · exact absurd hwbq (hmarked q hq)
      · exact absurd ((hvalid j).trans hvj) (hall j hj)
  · rw [hvalid] at hv
    have hd : Dummy p accessLeaf o q := (hdummy q).mpr ⟨⟨f, hf, hv⟩, hq, hwbq, hlast⟩
    refine ⟨fun i q' hi => ?_, fun i hi hplace => ?_, fun q' hd' => ⟨f, hf, hv, ?_⟩⟩
    · have hif : i ≠ f := fun h => (hplaces i q' hi).2.1 (h ▸ hv)
      rw [hother i hif]
      exact hplaces i q' hi
    · by_cases hif : i = f
      · subst hif
        exact .inr ⟨hv, q, hd, hkey⟩
      · rw [hother i hif]
        exact .inl (hothers i hi hplace)
    · obtain ⟨-, hq', hwbq', hlast'⟩ := (hdummy q').mp hd'
      rw [hkey, le_antisymm (hlast q' hq' hwbq') (hlast' q hq hwbq)]

variable {p} {accessLeaf : ℕ} {o o₁ o₂ : Oram}

lemma Slot.Le.key_le {s s' : Slot} (h : s.Le s') : s.key ≤ s'.key := by
  unfold Slot.Le LexLe Dir.Le at h
  simp only at h
  omega

lemma StashSorted.slot_from (h : StashSorted p o₁ o₂) {j : ℕ} (hj : j < p.stashSize) :
    ∃ i < p.stashSize, o₁.slot i = o₂.slot j :=
  (mem_slots p o₁ _).mp (h.perm.mem_iff.mp ((mem_slots p o₂ _).mpr ⟨j, hj, rfl⟩))

lemma StashSorted.slot_to (h : StashSorted p o₁ o₂) {i : ℕ} (hi : i < p.stashSize) :
    ∃ j < p.stashSize, o₂.slot j = o₁.slot i :=
  (mem_slots p o₂ _).mp (h.perm.mem_iff.mpr ((mem_slots p o₁ _).mpr ⟨i, hi, rfl⟩))

/-- A stash whose keys follow the plan, and the same stash after the sort. -/
structure SortedByPlan (p : OramParams) (accessLeaf : ℕ) (o o₁ o₂ : Oram) : Prop where
  sentinel : ((p.depth * p.bucketSize : ℕ) : ℤ) ≤ maxInt
  keyed : Keyed p accessLeaf o o₁
  byPlan : KeyedByPlan p accessLeaf o o₁
  sorted : StashSorted p o₁ o₂

namespace SortedByPlan

lemma kept_lt (h : SortedByPlan p accessLeaf o o₁ o₂) {q : ℕ} (hq : Kept p accessLeaf o q) :
    q < p.depth * p.bucketSize := by
  rcases hq with ⟨i, -, hi⟩ | ⟨-, hq, -⟩
  · exact (h.byPlan.places i q hi).2.2.1
  · exact hq

lemma not_taken_of_dummy (h : SortedByPlan p accessLeaf o o₁ o₂) {q : ℕ}
    (hd : Dummy p accessLeaf o q) : ¬ Taken p accessLeaf o q := by
  rintro ⟨i, hi, hplace⟩
  obtain ⟨j, hj, hvj, hkeyj⟩ := h.byPlan.dummy q hd
  obtain ⟨-, hvi, hq, hkeyi⟩ := h.byPlan.places i q hplace
  have hij : i ≠ j := fun heq => hvi (heq ▸ hvj)
  have hmax := h.keyed.distinct i hi j hj hij (hkeyi.trans hkeyj.symm)
  have hsentinel := h.sentinel
  omega

lemma exists_position (h : SortedByPlan p accessLeaf o o₁ o₂) {q : ℕ}
    (hq : Kept p accessLeaf o q) : ∃ j < p.stashSize, (o₂.slot j).key = (q : ℤ) := by
  have hkey : ∃ i < p.stashSize, (o₁.slot i).key = (q : ℤ) := by
    rcases hq with ⟨i, hi, hplace⟩ | hd
    · exact ⟨i, hi, (h.byPlan.places i q hplace).2.2.2⟩
    · obtain ⟨i, hi, -, hkey⟩ := h.byPlan.dummy q hd
      exact ⟨i, hi, hkey⟩
  obtain ⟨i, hi, hkey⟩ := hkey
  obtain ⟨j, hj, hslot⟩ := h.sorted.slot_to hi
  exact ⟨j, hj, by rw [hslot, hkey]⟩

lemma position_cases (h : SortedByPlan p accessLeaf o o₁ o₂) {j : ℕ} (hj : j < p.stashSize) :
    (∃ i < p.stashSize, ∃ q, (o.plan p accessLeaf).place i = some q ∧ o₁.slot i = o₂.slot j ∧
      (o₂.slot j).key = (q : ℤ) ∧ (o₂.slot j).valid ≠ 0) ∨
    (∃ q, Dummy p accessLeaf o q ∧ (o₂.slot j).key = (q : ℤ) ∧ (o₂.slot j).valid = 0) ∨
    (o₂.slot j).key = maxInt := by
  obtain ⟨i, hi, hslot⟩ := h.sorted.slot_from hj
  rw [← hslot]
  cases hplace : (o.plan p accessLeaf).place i with
  | some q =>
    obtain ⟨-, hv, -, hkey⟩ := h.byPlan.places i q hplace
    exact .inl ⟨i, hi, q, hplace, rfl, hkey, by rwa [h.keyed.same.valid]⟩
  | none =>
    rcases h.byPlan.others i hi hplace with hmax | ⟨hv, q, hd, hkey⟩
    · exact .inr (.inr hmax)
    · exact .inr (.inl ⟨q, hd, hkey, by rwa [h.keyed.same.valid]⟩)

lemma kept_of_key (h : SortedByPlan p accessLeaf o o₁ o₂) {j : ℕ} (hj : j < p.stashSize)
    (hlt : (o₂.slot j).key < maxInt) : ∃ q, Kept p accessLeaf o q ∧ (o₂.slot j).key = (q : ℤ) := by
  rcases h.position_cases hj with ⟨i, hi, q, hplace, -, hkey, -⟩ | ⟨q, hd, hkey, -⟩ | hmax
  · exact ⟨q, .inl ⟨i, hi, hplace⟩, hkey⟩
  · exact ⟨q, .inr hd, hkey⟩
  · omega

lemma position_unique (h : SortedByPlan p accessLeaf o o₁ o₂) (j j' : ℕ)
    (hj : j < p.stashSize) (hj' : j' < p.stashSize) (heq : (o₂.slot j).key = (o₂.slot j').key)
    (hlt : (o₂.slot j).key < maxInt) : j = j' := by
  by_contra hne
  have hmax := h.sorted.distinct h.keyed.distinct j hj j' hj' hne heq
  omega

lemma position_eq (h : SortedByPlan p accessLeaf o o₁ o₂) {z : ℕ}
    (hz : ∀ q < z, Kept p accessLeaf o q) : ∀ q < z, (o₂.slot q).key = (q : ℤ) := by
  intro q
  induction q using Nat.strong_induction_on with
  | h q ih =>
    intro hq
    have hlt := h.kept_lt (hz q hq)
    have hsentinel := h.sentinel
    obtain ⟨j, hj, hkey⟩ := h.exists_position (hz q hq)
    have hle := h.sorted.le_key h.keyed hj (by omega)
    rcases Nat.lt_or_ge j q with hjq | hjq
    · have hj' := ih j hjq (by omega)
      omega
    · have heq : j = q := le_antisymm (by omega) hjq
      rwa [heq] at hkey

lemma position_next (h : SortedByPlan p accessLeaf o o₁ o₂) {n x : ℕ}
    (hbelow : ∀ j < n, (o₂.slot j).key < (x : ℤ))
    (hgap : ∀ y < x, Kept p accessLeaf o y → ∃ j < n, (o₂.slot j).key = (y : ℤ))
    (hx : Kept p accessLeaf o x) : (o₂.slot n).key = (x : ℤ) := by
  have hlt := h.kept_lt hx
  have hsentinel := h.sentinel
  obtain ⟨j, hj, hkey⟩ := h.exists_position hx
  have hnj : n ≤ j := by
    by_contra hjn
    have hself := hbelow j (by omega)
    omega
  have hle := (h.sorted.sorted n j hnj hj).key_le
  obtain ⟨y, hy, hykey⟩ := h.kept_of_key (j := n) (by omega) (by omega)
  have hxy : x ≤ y := by
    by_contra hyx
    obtain ⟨i, hi, hikey⟩ := hgap y (by omega) hy
    have huniq := h.position_unique i n (by omega) (by omega) (by omega) (by omega)
    omega
  omega

lemma dummy_unique {q q' : ℕ} (hd : Dummy p accessLeaf o q) (hd' : Dummy p accessLeaf o q') :
    q = q' :=
  le_antisymm (hd'.2.2.2 q hd.2.1 hd.2.2.1) (hd.2.2.2 q' hd'.2.1 hd'.2.2.1)

lemma valid_of_taken (h : SortedByPlan p accessLeaf o o₁ o₂) {j q : ℕ} (hj : j < p.stashSize)
    (hkey : (o₂.slot j).key = (q : ℤ)) (ht : Taken p accessLeaf o q) :
    (o₂.slot j).valid ≠ 0 := by
  have hlt := h.kept_lt (.inl ht)
  have hsentinel := h.sentinel
  rcases h.position_cases hj with ⟨-, -, -, -, -, -, hv⟩ | ⟨q', hd, hkey', -⟩ | hmax
  · exact hv
  · rw [Int.ofNat_inj.mp (hkey.symm.trans hkey')] at ht
    exact absurd ht (h.not_taken_of_dummy hd)
  · omega

end SortedByPlan

section Condition

variable (p) (accessLeaf : ℕ) (o : Oram)

def unplaced : ℕ :=
  (List.range p.stashSize).countP fun j =>
    (o.plan p accessLeaf).place j = none ∧ (o.slot j).valid ≠ 0

/-- Every place nearer to the root than a block is kept, the blocks without a place fit
behind the path, and the sort puts them there. -/
structure KeepsPlaces : Prop where
  below : ∀ q, Taken p accessLeaf o q → ∀ q' < q, Kept p accessLeaf o q'
  room : p.depth * p.bucketSize + unplaced p accessLeaf o ≤ p.stashSize
  flags : (∀ q < p.depth * p.bucketSize, Kept p accessLeaf o q) ∨
    ∀ j < p.stashSize, (o.plan p accessLeaf).place j = none → (o.slot j).valid ≠ 0 →
      0 < (o.slot j).valid

/-- Every placed block of the stash is in the tree block of its place, every other tree
block of the path is invalid, and the tree off the path is as before. -/
structure WrittenBack (o' : Oram) : Prop where
  taken : ∀ i q, (o.plan p accessLeaf).place i = some q →
    o'.tree (pathPos p accessLeaf q) =
      ⟨(o.slot i).valid, (o.slot i).id, (o.slot i).leaf, (o.slot i).data⟩
  free : ∀ q < p.depth * p.bucketSize, ¬ Taken p accessLeaf o q →
    (o'.tree (pathPos p accessLeaf q)).valid = 0
  tree : ∀ t, (∀ q < p.depth * p.bucketSize, t ≠ pathPos p accessLeaf q) → o'.tree t = o.tree t

end Condition

namespace SortedByPlan

lemma countP_unplaced (h : SortedByPlan p accessLeaf o o₁ o₂) :
    ((List.range p.stashSize).countP fun j =>
      (o₂.slot j).valid ≠ 0 ∧ (o₂.slot j).key = maxInt) = unplaced p accessLeaf o := by
  have hperm := h.sorted.perm.countP_eq fun s => decide (s.valid ≠ 0 ∧ s.key = maxInt)
  rw [Oram.slots, Oram.slots, List.countP_map, List.countP_map] at hperm
  refine hperm.trans (List.countP_congr fun j hj => ?_)
  rw [List.mem_range] at hj
  simp only [Function.comp_apply, decide_eq_true_eq, h.keyed.same.valid]
  rw [and_comm]
  refine and_congr_left fun hv => ?_
  constructor
  · intro hkey
    cases hplace : (o.plan p accessLeaf).place j with
    | none => rfl
    | some q =>
      obtain ⟨-, -, hq, hkey'⟩ := h.byPlan.places j q hplace
      have hsentinel := h.sentinel
      omega
  · intro hplace
    rcases h.byPlan.others j hj hplace with hmax | ⟨hv', -⟩
    · exact hmax
    · exact absurd hv' hv

/-- Blocks in the right positions mean that the places are kept. -/
lemma below_of_valid (h : SortedByPlan p accessLeaf o o₁ o₂)
    (hvalid : ∀ q < p.depth * p.bucketSize, (o₂.slot q).valid ≠ 0 ↔ Taken p accessLeaf o q) :
    ∀ q, Taken p accessLeaf o q → ∀ q' < q, Kept p accessLeaf o q' := by
  classical
  intro q hq q' hq'
  by_contra hnot
  have hstash := p.pathLen_lt_stashSize
  have hqP := h.kept_lt (.inl hq)
  -- `z` is the first place that is not kept, `x` the next one that is
  have hexz : ∃ z, ¬ Kept p accessLeaf o z := ⟨q', hnot⟩
  set z := Nat.find hexz with hzdef
  have hz : ¬ Kept p accessLeaf o z := Nat.find_spec hexz
  have hbelow : ∀ y < z, Kept p accessLeaf o y := fun y hy => not_not.mp (Nat.find_min hexz hy)
  have hzq : z ≤ q' := Nat.find_min' hexz hnot
  have hexx : ∃ x, z ≤ x ∧ Kept p accessLeaf o x := ⟨q, by omega, .inl hq⟩
  set x := Nat.find hexx with hxdef
  obtain ⟨hzx, hx⟩ : z ≤ x ∧ Kept p accessLeaf o x := Nat.find_spec hexx
  have hleast : ∀ y, z ≤ y → Kept p accessLeaf o y → x ≤ y := fun y hy hk =>
    Nat.find_min' hexx ⟨hy, hk⟩
  have hne : z ≠ x := fun heq => hz (heq ▸ hx)
  have hfirst : ∀ y < z, (o₂.slot y).key = (y : ℤ) := h.position_eq hbelow
  have hkeyz : (o₂.slot z).key = (x : ℤ) := by
    refine h.position_next (fun j hj => ?_) (fun y hy hk => ⟨y, ?_, hfirst y ?_⟩) hx
    · rw [hfirst j hj]
      omega
    · by_contra hyz
      exact absurd (hleast y (by omega) hk) (by omega)
    · by_contra hyz
      exact absurd (hleast y (by omega) hk) (by omega)
  -- the slot of `x` is the dummy, for `z` is not taken
  have hdummy : Dummy p accessLeaf o x := by
    rcases hx with ht | hd
    · have hv := h.valid_of_taken (by omega) hkeyz ht
      exact absurd (.inl ((hvalid z (by omega)).mp hv)) hz
    · exact hd
  have hxq : x < q := by
    refine lt_of_le_of_ne (hleast q (by omega) (.inl hq)) fun heq => ?_
    exact h.not_taken_of_dummy hdummy (heq ▸ hq)
  -- so the place after `z` gets the block of a place behind `x`
  have hexy : ∃ y, x < y ∧ Kept p accessLeaf o y := ⟨q, hxq, .inl hq⟩
  set y := Nat.find hexy with hydef
  obtain ⟨hxy, hy⟩ : x < y ∧ Kept p accessLeaf o y := Nat.find_spec hexy
  have hyq : y ≤ q := Nat.find_min' hexy ⟨hxq, .inl hq⟩
  have hkeyz' : (o₂.slot (z + 1)).key = (y : ℤ) := by
    refine h.position_next (fun j hj => ?_) (fun y' hy' hk => ?_) hy
    · rcases Nat.lt_succ_iff_lt_or_eq.mp hj with hlt | rfl
      · rw [hfirst j hlt]
        omega
      · omega
    · by_cases hyz : y' < z
      · exact ⟨y', by omega, hfirst y' hyz⟩
      · have hxy' := hleast y' (by omega) hk
        have hyx' : ¬ x < y' := fun hlt => Nat.find_min hexy hy' ⟨hlt, hk⟩
        exact ⟨z, by omega, by rw [hkeyz, (by omega : y' = x)]⟩
  have htaken : Taken p accessLeaf o y := by
    refine hy.resolve_right fun hd => ?_
    have hxy' := dummy_unique hdummy hd
    omega
  have hv := h.valid_of_taken (by omega) hkeyz' htaken
  have hnext : Taken p accessLeaf o (z + 1) := (hvalid (z + 1) (by omega)).mp hv
  have hxz := hleast (z + 1) (by omega) (.inl hnext)
  exact h.not_taken_of_dummy hdummy ((by omega : z + 1 = x) ▸ hnext)

lemma room_of_valid (h : SortedByPlan p accessLeaf o o₁ o₂)
    (hvalid : ∀ q < p.depth * p.bucketSize, (o₂.slot q).valid ≠ 0 ↔ Taken p accessLeaf o q) :
    p.depth * p.bucketSize + unplaced p accessLeaf o ≤ p.stashSize := by
  have hstash := p.pathLen_lt_stashSize
  have hsentinel := h.sentinel
  have hsplit : List.range p.stashSize = List.range' 0 (p.depth * p.bucketSize) ++
      List.range' (0 + p.depth * p.bucketSize) (p.stashSize - p.depth * p.bucketSize) := by
    rw [List.range'_append_1, List.range_eq_range']
    congr 1
    omega
  have hpath : (List.range' 0 (p.depth * p.bucketSize)).countP
      (fun j => decide ((o₂.slot j).valid ≠ 0 ∧ (o₂.slot j).key = maxInt)) = 0 := by
    rw [List.countP_eq_zero]
    intro q hq
    rw [List.mem_range'_1] at hq
    rw [decide_eq_true_eq]
    rintro ⟨hv, hmax⟩
    have htaken := (hvalid q (by omega)).mp hv
    have hkept : ∀ x < q + 1, Kept p accessLeaf o x := fun x hx => by
      rcases Nat.lt_succ_iff_lt_or_eq.mp hx with hlt | rfl
      · exact h.below_of_valid hvalid q htaken x hlt
      · exact .inl htaken
    have hkey := h.position_eq hkept q (by omega)
    omega
  rw [← h.countP_unplaced, hsplit, List.countP_append, hpath, Nat.zero_add]
  have hle := List.countP_le_length (p := fun j => decide ((o₂.slot j).valid ≠ 0 ∧
    (o₂.slot j).key = maxInt)) (l := List.range' (0 + p.depth * p.bucketSize)
      (p.stashSize - p.depth * p.bucketSize))
  rw [List.length_range'] at hle
  omega

lemma flags_of_valid (h : SortedByPlan p accessLeaf o o₁ o₂)
    (hvalid : ∀ q < p.depth * p.bucketSize, (o₂.slot q).valid ≠ 0 ↔ Taken p accessLeaf o q) :
    (∀ q < p.depth * p.bucketSize, Kept p accessLeaf o q) ∨
      ∀ j < p.stashSize, (o.plan p accessLeaf).place j = none → (o.slot j).valid ≠ 0 →
        0 < (o.slot j).valid := by
  classical
  by_cases hall : ∀ q < p.depth * p.bucketSize, Kept p accessLeaf o q
  · exact .inl hall
  right
  intro i hi hplace hvi
  by_contra hneg
  push Not at hall
  obtain ⟨q', hq', hnot⟩ := hall
  have hstash := p.pathLen_lt_stashSize
  have hsentinel := h.sentinel
  have hbelow := h.below_of_valid hvalid
  have hexz : ∃ z, ¬ Kept p accessLeaf o z := ⟨q', hnot⟩
  set z := Nat.find hexz with hzdef
  have hz : ¬ Kept p accessLeaf o z := Nat.find_spec hexz
  have hzq : z ≤ q' := Nat.find_min' hexz hnot
  have hfirst : ∀ y < z, (o₂.slot y).key = (y : ℤ) :=
    h.position_eq fun y hy => not_not.mp (Nat.find_min hexz hy)
  have htaken : ∀ t, Taken p accessLeaf o t → t < z := by
    intro t ht
    by_contra htz
    rcases Nat.eq_or_lt_of_not_lt htz with heq | hlt
    · exact hz (heq ▸ .inl ht)
    · exact hz (hbelow t ht z hlt)
  -- behind the places up to `z` there is at most the dummy
  have hdummy : ∀ r, z ≤ r → r < p.stashSize → (o₂.slot r).key ≠ maxInt →
      ∃ d, Dummy p accessLeaf o d ∧ (o₂.slot r).key = (d : ℤ) ∧ z < d := by
    intro r hr hrS hne
    rcases h.position_cases hrS with ⟨i', hi', t, hplace', -, hkey, -⟩ | ⟨d, hd, hkey, -⟩ | hmax
    · have htz := htaken t ⟨i', hi', hplace'⟩
      have huniq := h.position_unique t r (by omega) hrS
        (by rw [hfirst t htz, hkey]) (by rw [hfirst t htz]; omega)
      omega
    · refine ⟨d, hd, hkey, ?_⟩
      by_contra hdz
      have hdne : d ≠ z := fun heq => hz (heq ▸ .inr hd)
      have huniq := h.position_unique d r (by omega) hrS
        (by rw [hfirst d (by omega), hkey]) (by rw [hfirst d (by omega)]; omega)
      omega
    · exact absurd hmax hne
  have hexr : ∃ r, z ≤ r ∧ (o₂.slot r).key = maxInt ∧ r < p.depth * p.bucketSize := by
    by_cases hkeyz : (o₂.slot z).key = maxInt
    · exact ⟨z, le_rfl, hkeyz, by omega⟩
    obtain ⟨d, hd, hdkey, hzd⟩ := hdummy z le_rfl (by omega) hkeyz
    have hdP := hd.2.1
    refine ⟨z + 1, by omega, ?_, by omega⟩
    by_contra hne
    obtain ⟨d', hd', hdkey', -⟩ := hdummy (z + 1) (by omega) (by omega) hne
    rw [dummy_unique hd' hd] at hdkey'
    have huniq := h.position_unique z (z + 1) (by omega) (by omega) (by omega)
      (by omega)
    omega
  set r := Nat.find hexr with hrdef
  obtain ⟨hzr, hkeyr, hrP⟩ : z ≤ r ∧ (o₂.slot r).key = maxInt ∧ r < p.depth * p.bucketSize :=
    Nat.find_spec hexr
  -- the negative flag is not behind the first position with the key `max_int`
  have hkeyi : (o₁.slot i).key = maxInt := by
    rcases h.byPlan.others i hi hplace with hmax | ⟨hv, -⟩
    · exact hmax
    · exact absurd hv hvi
  obtain ⟨j, hj, hslot⟩ := h.sorted.slot_to hi
  rw [← hslot] at hkeyi
  have hvj : (o₂.slot j).valid = (o.slot i).valid := by rw [hslot, h.keyed.same.valid]
  have hrj : r ≤ j := by
    by_contra hjr
    rcases Nat.lt_or_ge j z with hjz | hjz
    · have hself := hfirst j hjz
      omega
    · exact Nat.find_min hexr (by omega) ⟨hjz, hkeyi, by omega⟩
  have hle := h.sorted.sorted r j hrj hj
  have hvr : (o₂.slot r).valid ≠ 0 := by
    unfold Slot.Le LexLe Dir.Le at hle
    simp only at hle
    omega
  have hrz := htaken r ((hvalid r hrP).mp hvr)
  omega

lemma slot_of_place (h : SortedByPlan p accessLeaf o o₁ o₂)
    (hbelow : ∀ q, Taken p accessLeaf o q → ∀ q' < q, Kept p accessLeaf o q') {i q : ℕ}
    (hplace : (o.plan p accessLeaf).place i = some q) : o₂.slot q = o₁.slot i := by
  obtain ⟨hi, -, hq, hkey⟩ := h.byPlan.places i q hplace
  have hstash := p.pathLen_lt_stashSize
  have hsentinel := h.sentinel
  have htaken : Taken p accessLeaf o q := ⟨i, hi, hplace⟩
  have hkept : ∀ x < q + 1, Kept p accessLeaf o x := fun x hx => by
    rcases Nat.lt_succ_iff_lt_or_eq.mp hx with hlt | rfl
    · exact hbelow q htaken x hlt
    · exact .inl htaken
  have hkeyq := h.position_eq hkept q (by omega)
  obtain ⟨j, hj, hslot⟩ := h.sorted.slot_from (j := q) (by omega)
  have hij : i = j := by
    by_contra hne
    have hmax := h.keyed.distinct i hi j hj hne (by rw [hkey, hslot, hkeyq])
    omega
  rw [← hslot, hij]

/-- The positions of the other places are invalid. -/
lemma free_of_keepsPlaces (h : SortedByPlan p accessLeaf o o₁ o₂)
    (hk : KeepsPlaces p accessLeaf o) {q : ℕ} (hq : q < p.depth * p.bucketSize)
    (hfree : ¬ Taken p accessLeaf o q) : (o₂.slot q).valid = 0 := by
  have hstash := p.pathLen_lt_stashSize
  have hsentinel := h.sentinel
  obtain ⟨i, hi, hslot⟩ := h.sorted.slot_from (j := q) (by omega)
  cases hplace : (o.plan p accessLeaf).place i with
  | some t =>
    -- the slot is in the position of its place
    obtain ⟨-, -, ht, hkey⟩ := h.byPlan.places i t hplace
    have hpos := h.slot_of_place hk.below hplace
    have htq : t = q := h.position_unique t q (by omega) (by omega) (by rw [hpos, hslot])
      (by rw [hpos, hkey]; omega)
    exact absurd ⟨i, hi, htq ▸ hplace⟩ hfree
  | none =>
    by_contra hv
    have hvi : (o.slot i).valid ≠ 0 := by rwa [← hslot, h.keyed.same.valid] at hv
    have hkey : (o₂.slot q).key = maxInt := by
      rw [← hslot]
      rcases h.byPlan.others i hi hplace with hmax | ⟨hv', -⟩
      · exact hmax
      · exact absurd hv' hvi
    have hpositive : 0 < (o₂.slot q).valid := by
      rcases hk.flags with hall | hpos
      · have hself := h.position_eq hall q hq
        omega
      · rw [← hslot, h.keyed.same.valid]
        exact hpos i hi hplace hvi
    -- so all positions from here on hold blocks without a place
    have hbehind : ∀ r, q ≤ r → r < p.stashSize →
        (o₂.slot r).valid ≠ 0 ∧ (o₂.slot r).key = maxInt := by
      intro r hqr hr
      have hle := h.sorted.sorted q r hqr hr
      have hkeyr : (o₂.slot r).key = maxInt := by
        by_contra hne
        have hkeys := hle.key_le
        rcases h.position_cases hr with ⟨i', -, t, hplace', -, hkey', -⟩ | ⟨d, hd, hkey', -⟩ | hmax
        · have ht := (h.byPlan.places i' t hplace').2.2.1
          omega
        · have hd' := hd.2.1
          omega
        · exact hne hmax
      refine ⟨?_, hkeyr⟩
      unfold Slot.Le LexLe Dir.Le at hle
      simp only at hle
      omega
    have hsplit : List.range p.stashSize =
        List.range' 0 q ++ List.range' (0 + q) (p.stashSize - q) := by
      rw [List.range'_append_1, List.range_eq_range']
      congr 1
      omega
    have htail : (List.range' (0 + q) (p.stashSize - q)).countP (fun j =>
        decide ((o₂.slot j).valid ≠ 0 ∧ (o₂.slot j).key = maxInt)) =
          (List.range' (0 + q) (p.stashSize - q)).length := by
      rw [List.countP_eq_length]
      intro r hr
      rw [List.mem_range'_1] at hr
      exact decide_eq_true (hbehind r (by omega) (by omega))
    have hroom := hk.room
    rw [← h.countP_unplaced, hsplit, List.countP_append, htail, List.length_range'] at hroom
    omega

end SortedByPlan

lemma writeBackPath_placed {leaf : ℕ} (hleaf : leaf < p.numLeaves) (m : Mem OramArr) :
    (∀ q < p.depth * p.bucketSize,
      (Oram.ofMem p ((writeBackPath p leaf).exec m)).tree (pathPos p leaf q) =
        ⟨((Oram.ofMem p m).slot q).valid, ((Oram.ofMem p m).slot q).id,
          ((Oram.ofMem p m).slot q).leaf, ((Oram.ofMem p m).slot q).data⟩) ∧
      ∀ t, (∀ q < p.depth * p.bucketSize, t ≠ pathPos p leaf q) →
        (Oram.ofMem p ((writeBackPath p leaf).exec m)).tree t = (Oram.ofMem p m).tree t := by
  have hinv := walkLoop_invariant p (writeBackBlock p) leaf
    (fun n m' => (∀ i, n ≤ i → (Oram.ofMem p m').slot i = (Oram.ofMem p m).slot i) ∧
      (∀ q < n, (Oram.ofMem p m').tree (pathPos p leaf q) =
        ⟨((Oram.ofMem p m).slot q).valid, ((Oram.ofMem p m).slot q).id,
          ((Oram.ofMem p m).slot q).leaf, ((Oram.ofMem p m).slot q).data⟩) ∧
      ∀ t, (∀ q < n, t ≠ pathPos p leaf q) →
        (Oram.ofMem p m').tree t = (Oram.ofMem p m).tree t) m
    ⟨fun _ _ => rfl, fun _ hq => absurd hq (Nat.not_lt_zero _), fun _ _ => rfl⟩
    (fun n hn m' ⟨hslots, hplaced, htree⟩ => by
      rw [ofMem_writeBackBlock, Oram.putBack, hslots n le_rfl]
      refine ⟨fun i hi => ?_, fun q hq => ?_, fun t ht => ?_⟩
      · rw [Oram.setSlot_slot_of_ne _ _ _ (by omega), Oram.setTree_slot]
        exact hslots i (by omega)
      · rw [Oram.setSlot_tree]
        rcases Nat.lt_succ_iff_lt_or_eq.mp hq with hlt | rfl
        · have hne : pathPos p leaf q ≠ pathPos p leaf n := fun heq => by
            have hqn := pathPos_inj hleaf (by omega) hn heq
            omega
          rw [Oram.setTree_tree_of_ne _ _ _ hne]
          exact hplaced q hlt
        · rw [Oram.setTree_tree_self]
      · rw [Oram.setSlot_tree, Oram.setTree_tree_of_ne _ _ _ (ht n (by omega))]
        exact htree t fun q hq => ht q (by omega))
  exact ⟨hinv.2.1, hinv.2.2⟩

/-- `Store_Blocks` brings every placed block to its place and clears the other places of the
path exactly when the plan keeps its places. -/
theorem storeBlocks_writtenBack_iff {leaf : ℕ} (hleaf : leaf < p.numLeaves)
    (hsentinel : ((p.depth * p.bucketSize : ℕ) : ℤ) ≤ maxInt) (m : Mem OramArr) :
    ∃ store, storeBlocks p leaf = some store ∧
      (WrittenBack p leaf (Oram.ofMem p m) (Oram.ofMem p (store.exec m)) ↔
        KeepsPlaces p leaf (Oram.ofMem p m)) := by
  obtain ⟨sort, hsort, hsorted⟩ := sortStash_sorted p
  refine ⟨_, by rw [storeBlocks, hsort, Option.map_some], ?_⟩
  have hstash := p.pathLen_lt_stashSize
  simp only [exec_bind, exec_pure]
  have hkeyed := assignKeys_keyed p leaf m
  have hplan := assignKeys_keyedByPlan p leaf m
  set m₁ := (assignKeys p leaf).exec m
  have hs := hsorted m₁
  set m₂ := sort.exec m₁
  have h : SortedByPlan p leaf (Oram.ofMem p m) (Oram.ofMem p m₁) (Oram.ofMem p m₂) :=
    ⟨hsentinel, hkeyed, hplan, hs⟩
  obtain ⟨hplaced, hoff⟩ := writeBackPath_placed hleaf m₂
  constructor
  · intro hw
    have hvalid : ∀ q < p.depth * p.bucketSize, ((Oram.ofMem p m₂).slot q).valid ≠ 0 ↔
        Taken p leaf (Oram.ofMem p m) q := by
      intro q hq
      have hslot : ((Oram.ofMem p m₂).slot q).valid =
          ((Oram.ofMem p ((writeBackPath p leaf).exec m₂)).tree (pathPos p leaf q)).valid := by
        rw [hplaced q hq]
      rw [hslot]
      constructor
      · intro hv
        by_contra hfree
        exact hv (hw.free q hq hfree)
      · rintro ⟨i, hi, hplace⟩
        rw [hw.taken i q hplace]
        exact (hplan.places i q hplace).2.1
    exact ⟨h.below_of_valid hvalid, h.room_of_valid hvalid, h.flags_of_valid hvalid⟩
  · intro hk
    refine ⟨fun i q hplace => ?_, fun q hq hfree => ?_, fun t ht => ?_⟩
    · rw [hplaced q (hplan.places i q hplace).2.2.1, h.slot_of_place hk.below hplace,
        hkeyed.same.valid, hkeyed.same.id, hkeyed.same.leaf, hkeyed.same.data]
    · rw [hplaced q hq]
      exact h.free_of_keepsPlaces hk hq hfree
    · rw [hoff t ht, hs.tree, hkeyed.same.tree]

def oneBlockMem : Mem OramArr := zeroMem.set .stashInfo (infoValid 0) 1

theorem storeBlocks_writtenBack_oneBlock :
    ∃ store, storeBlocks smallOram 0 = some store ∧
      (WrittenBack smallOram 0 (Oram.ofMem smallOram oneBlockMem)
          (Oram.ofMem smallOram (store.exec oneBlockMem)) ↔
        KeepsPlaces smallOram 0 (Oram.ofMem smallOram oneBlockMem)) :=
  storeBlocks_writtenBack_iff (by decide +kernel) (by decide +kernel) oneBlockMem

/-- The only block of an empty ORAM is written one level above its place. -/
theorem storeBlocks_oneBlock_shifted :
    ¬ ∀ (p : OramParams) (leaf : ℕ) (m : Mem OramArr), leaf < p.numLeaves →
      ∃ store, storeBlocks p leaf = some store ∧
        WrittenBack p leaf (Oram.ofMem p m) (Oram.ofMem p (store.exec m)) := by
  intro hall
  obtain ⟨store, hstore, hw⟩ := hall smallOram 0 oneBlockMem (by decide +kernel)
  have hplace : ((Oram.ofMem smallOram oneBlockMem).plan smallOram 0).place 0 = some 2 := by
    decide +kernel
  have hvalid := congrArg TreeBlock.valid (hw.taken 0 2 hplace)
  have hrun : (storeBlocks smallOram 0).map (fun s =>
      ((Oram.ofMem smallOram (s.exec oneBlockMem)).tree (pathPos smallOram 0 2)).valid) =
        some 0 := by
    decide +kernel
  rw [hstore, Option.map_some, Option.some.injEq, hvalid] at hrun
  revert hrun
  decide +kernel

end OISA.Primitives
