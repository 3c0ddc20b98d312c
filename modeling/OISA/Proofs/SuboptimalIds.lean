import OISA.Primitives.PathOramSuboptimal

/-!
# Unique ids in the suboptimal ORAM

A place is a slot of the stash or a place of a bucket.
-/

namespace OISA.Primitives.Suboptimal

open OISA.Lib

abbrev Place := ℕ ⊕ ℕ × ℕ

def Oram.mark (s : Oram) : Place → ℤ × ℤ
  | .inl j => ((s.stash j).valid, (s.stash j).id)
  | .inr b => ((s.tree b.1 b.2).valid, (s.tree b.1 b.2).id)

@[simp] lemma Oram.mark_inl (s : Oram) (j : ℕ) :
    s.mark (.inl j) = ((s.stash j).valid, (s.stash j).id) := rfl

@[simp] lemma Oram.mark_inr (s : Oram) (b k : ℕ) :
    s.mark (.inr (b, k)) = ((s.tree b k).valid, (s.tree b k).id) := rfl

variable (p : Params)

def InRange (R : ℕ → Prop) : Place → Prop
  | .inl j => j < p.stashSize
  | .inr b => R b.1 ∧ b.2 < p.bucketSize

def places (R : ℕ → Prop) (s : Oram) (id : ℤ) : Set Place :=
  {x | InRange p R x ∧ (s.mark x).1 ≠ 0 ∧ (s.mark x).2 = id}

def InTree (b : ℕ) : Prop := b < 1 <<< p.depth

def OnPath (leaf : ℤ) (b : ℕ) : Prop := ∃ i < p.depth, bucketIdx p leaf i = b

/-- A valid block of the id is in the arrays. -/
def Stored (id : ℤ) (s : Oram) : Prop := (places p (InTree p) s id).Nonempty

/-- A valid block of the id is in the stash or on the path. -/
def Reached (leaf id : ℤ) (s : Oram) : Prop := (places p (OnPath p leaf) s id).Nonempty

/-- The call is a READ, or a WRITE of an id that is not stored. -/
def WritesNew (c : Call) (s : Oram) : Prop := c.op = .write → ¬ Stored p c.id s

/-- At most one valid slot of the stash has any given id, and after a WRITE of a stored id there is
one that holds the new data. -/
structure FetchedOnce (c : Call) (s s' : Oram) : Prop where
  once : ∀ i < p.stashSize, ∀ j < p.stashSize, (s'.stash i).valid ≠ 0 → (s'.stash j).valid ≠ 0 →
    (s'.stash i).id = (s'.stash j).id → i = j
  written : c.op = .write → Stored p c.id s →
    ∃ i < p.stashSize, (s'.stash i).valid ≠ 0 ∧ (s'.stash i).id = c.id ∧
      (s'.stash i).data = c.data

/-- A sort of the stash permutes its slots. -/
def Permutes (sort : (ℕ → StashSlot) → ℕ → StashSlot) : Prop :=
  ∀ stash, ∃ e : Equiv.Perm ℕ,
    (∀ i < p.stashSize, e i < p.stashSize) ∧ ∀ i < p.stashSize, sort stash i = stash (e i)

def Moved (R : ℕ → Prop) (s s' : Oram) : Prop :=
  ∃ e : Equiv.Perm Place, ∀ id, places p R s' id = Set.preimage e (places p R s id)

def Kept (R : ℕ → Prop) (s s' : Oram) : Prop :=
  ∃ e : Equiv.Perm Place, ∀ id, places p R s' id ⊆ Set.preimage e (places p R s id)

def Unique (R : ℕ → Prop) (s : Oram) : Prop := ∀ id, (places p R s id).Subsingleton

variable {p} {R : ℕ → Prop} {s s' s'' : Oram}

lemma Moved.refl (s : Oram) : Moved p R s s := ⟨Equiv.refl _, fun _ => rfl⟩

lemma Moved.trans (h : Moved p R s s') (h' : Moved p R s' s'') : Moved p R s s'' := by
  obtain ⟨e, he⟩ := h
  obtain ⟨e', he'⟩ := h'
  refine ⟨e'.trans e, fun id => ?_⟩
  rw [he' id, he id]
  rfl

lemma Moved.nonempty_iff (h : Moved p R s s') (id : ℤ) :
    (places p R s' id).Nonempty ↔ (places p R s id).Nonempty := by
  obtain ⟨e, he⟩ := h
  rw [he id]
  constructor
  · rintro ⟨x, hx⟩
    exact ⟨e x, hx⟩
  · rintro ⟨x, hx⟩
    exact ⟨e.symm x, by rwa [Set.mem_preimage, e.apply_symm_apply]⟩

lemma Moved.kept (h : Moved p R s s') : Kept p R s s' := by
  obtain ⟨e, he⟩ := h
  exact ⟨e, fun id => (he id).subset⟩

lemma Kept.trans (h : Kept p R s s') (h' : Kept p R s' s'') : Kept p R s s'' := by
  obtain ⟨e, he⟩ := h
  obtain ⟨e', he'⟩ := h'
  exact ⟨e'.trans e, fun id x hx => he id (he' id hx)⟩

lemma Unique.kept (h : Unique p R s) (hk : Kept p R s s') : Unique p R s' := by
  obtain ⟨e, he⟩ := hk
  intro id
  exact ((h id).preimage e.injective).anti (he id)

lemma Unique.anti {Q : ℕ → Prop} (h : Unique p R s) (hQ : ∀ b, Q b → R b) : Unique p Q s := by
  intro id
  refine (h id).anti fun x hx => ⟨?_, hx.2⟩
  cases x with
  | inl j => exact hx.1
  | inr b => exact ⟨hQ _ hx.1.1, hx.1.2⟩

lemma Unique.insert {a : Place} {id : ℤ} (h : Unique p R s)
    (hrest : ∀ x, x ≠ a → s'.mark x = s.mark x) (hid : (s'.mark a).2 = id)
    (hnew : ¬ (places p R s id).Nonempty) : Unique p R s' := by
  have hold : ∀ x k, x ≠ a → x ∈ places p R s' k → x ∈ places p R s k := by
    rintro x k hx ⟨hrange, hmark⟩
    rw [hrest x hx] at hmark
    exact ⟨hrange, hmark⟩
  have honly : ∀ x k, x ≠ a → a ∈ places p R s' k → x ∉ places p R s' k := by
    rintro x k hx ⟨-, -, hak⟩ hxk
    rw [← hak, hid] at hxk
    exact hnew ⟨x, hold x id hx hxk⟩
  intro k x hx y hy
  by_cases hxa : x = a
  · by_cases hya : y = a
    · rw [hxa, hya]
    · subst hxa
      exact absurd hy (honly y k hya hx)
  · by_cases hya : y = a
    · subst hya
      exact absurd hx (honly x k hxa hy)
    · exact h k (hold x k hxa hx) (hold y k hya hy)

lemma moved_of_mark (h : s'.mark = s.mark) : Moved p R s s' := by
  refine ⟨Equiv.refl _, fun id => ?_⟩
  ext x
  simp only [places, h, Equiv.refl_apply, Set.mem_preimage, Set.mem_ofPred_eq]

lemma moved_of_swap {a b : Place} (ha : InRange p R a) (hb : InRange p R b) (hne : b ≠ a)
    (hfree : (s.mark b).1 = 0) (hto : s'.mark b = s.mark a) (hfrom : (s'.mark a).1 = 0)
    (hrest : ∀ x, x ≠ a → x ≠ b → s'.mark x = s.mark x) : Moved p R s s' := by
  refine ⟨Equiv.swap a b, fun id => ?_⟩
  ext x
  simp only [places, Set.mem_preimage, Set.mem_ofPred_eq]
  by_cases hxa : x = a
  · subst hxa
    rw [Equiv.swap_apply_left]
    simp only [hfrom, hfree, ne_eq, not_true_eq_false, false_and, and_false]
  · by_cases hxb : x = b
    · subst hxb
      rw [Equiv.swap_apply_right, hto]
      simp only [ha, hb]
    · rw [Equiv.swap_apply_of_ne_of_ne hxa hxb, hrest x hxa hxb]

lemma kept_of_swap {a b : Place} (ha : InRange p R a) (hto : s'.mark b = s.mark a)
    (hfrom : (s'.mark a).1 = 0) (hrest : ∀ x, x ≠ a → x ≠ b → s'.mark x = s.mark x) :
    Kept p R s s' := by
  refine ⟨Equiv.swap a b, fun id x hx => ?_⟩
  obtain ⟨hx, hvalid, hid⟩ := hx
  by_cases hxa : x = a
  · subst hxa
    exact absurd hfrom hvalid
  · by_cases hxb : x = b
    · subst hxb
      rw [hto] at hvalid hid
      rw [Set.mem_preimage, Equiv.swap_apply_right]
      exact ⟨ha, hvalid, hid⟩
    · rw [hrest x hxa hxb] at hvalid hid
      rw [Set.mem_preimage, Equiv.swap_apply_of_ne_of_ne hxa hxb]
      exact ⟨hx, hvalid, hid⟩

lemma bucketIdx_succ (leaf : ℤ) (i : ℕ) :
    ∃ d < 2, bucketIdx p leaf (i + 1) = bucketIdx p leaf i * 2 + d := by
  unfold bucketIdx
  rw [Function.iterate_succ_apply']
  exact ⟨_, Nat.mod_lt _ (by decide), rfl⟩

lemma bucketIdx_lt (leaf : ℤ) (i : ℕ) : bucketIdx p leaf i < 2 ^ (i + 1) := by
  induction i with
  | zero => exact (by decide : 1 < 2)
  | succ i ih =>
    obtain ⟨d, hd, hsucc⟩ := bucketIdx_succ (p := p) leaf i
    rw [hsucc, pow_succ]
    omega

lemma OnPath.inTree {leaf : ℤ} {b : ℕ} (h : OnPath p leaf b) : InTree p b := by
  obtain ⟨i, hi, rfl⟩ := h
  rw [InTree, Nat.one_shiftLeft]
  calc bucketIdx p leaf i < 2 ^ (i + 1) := bucketIdx_lt leaf i
    _ ≤ 2 ^ p.depth := Nat.pow_le_pow_right (by decide) hi

lemma fetchBlock_moved {b j k : ℕ} (hb : R b) (hj : j < p.stashSize) (hk : k < p.bucketSize)
    (s : Oram) : Moved p R s (fetchBlock b j s k) := by
  simp only [fetchBlock]
  split
  · next hmove =>
    have hne : (Sum.inl j : Place) ≠ .inr (b, k) := by simp
    refine moved_of_swap (a := .inr (b, k)) (b := .inl j) ⟨hb, hk⟩ hj hne hmove.2 ?_ ?_ ?_
    · simp
    · simp
    · intro x hxa hxb
      cases x with
      | inl i =>
        have hi : i ≠ j := fun h => hxb (by rw [h])
        simp [Function.update_of_ne hi]
      | inr c =>
        obtain ⟨c, l⟩ := c
        by_cases hc : c = b
        · subst hc
          have hl : l ≠ k := fun h => hxa (by rw [h])
          simp [Function.update_of_ne hl]
        · simp [Function.update_of_ne hc]
  · exact Moved.refl s

lemma fetchBucket_moved {b : ℕ} (hb : R b) (s : Oram) : Moved p R s (fetchBucket p b s) := by
  refine List.foldlRecOn (motive := fun t => Moved p R s t) _ _ (Moved.refl s) ?_
  intro t ht j hj
  refine List.foldlRecOn (motive := fun t => Moved p R s t) _ _ ht ?_
  intro u hu k hk
  exact hu.trans (fetchBlock_moved hb (List.mem_range.mp hj) (List.mem_range.mp hk) u)

lemma fetchPath_moved {leaf : ℤ} (hR : ∀ b, OnPath p leaf b → R b) (s : Oram) :
    Moved p R s (fetchPath p leaf s) := by
  refine List.foldlRecOn (motive := fun t => Moved p R s t) _ _ (Moved.refl s) ?_
  intro t ht i hi
  exact ht.trans (fetchBucket_moved (hR _ ⟨i, List.mem_range.mp hi, rfl⟩) t)

/-- Slots that are taken and places of the tree that are free stay so. -/
structure Later (s s' : Oram) : Prop where
  stash : ∀ j, (s.stash j).valid ≠ 0 → (s'.stash j).valid ≠ 0
  tree : ∀ b k, (s.tree b k).valid = 0 → (s'.tree b k).valid = 0

lemma Later.refl (s : Oram) : Later s s := ⟨fun _ h => h, fun _ _ h => h⟩

lemma Later.trans (h : Later s s') (h' : Later s' s'') : Later s s'' where
  stash j hj := h'.stash j (h.stash j hj)
  tree b k hb := h'.tree b k (h.tree b k hb)

lemma fetchBlock_later (b j k : ℕ) (s : Oram) : Later s (fetchBlock b j s k) := by
  simp only [fetchBlock]
  split
  · next hmove =>
    constructor
    · intro i hi
      by_cases hij : i = j
      · subst hij
        exact absurd hmove.2 hi
      · simpa [Function.update_of_ne hij] using hi
    · intro c l hc
      by_cases hcb : c = b
      · subst hcb
        by_cases hlk : l = k
        · subst hlk
          simp
        · simpa [Function.update_of_ne hlk] using hc
      · simpa [Function.update_of_ne hcb] using hc
  · exact Later.refl s

lemma fetchBlock_done (b j k : ℕ) (s : Oram) :
    ((fetchBlock b j s k).stash j).valid ≠ 0 ∨ ((fetchBlock b j s k).tree b k).valid = 0 := by
  simp only [fetchBlock]
  split
  · exact .inr (by simp)
  · next hstay =>
    by_cases hk : (s.tree b k).valid = 0
    · exact .inr hk
    · exact .inl fun hj => hstay ⟨hk, hj⟩

lemma foldl_later {f : Oram → ℕ → Oram} (hf : ∀ s i, Later s (f s i)) (is : List ℕ) (s : Oram) :
    Later s (is.foldl f s) :=
  List.foldlRecOn (motive := fun t => Later s t) _ _ (Later.refl s)
    fun _ ht i _ => ht.trans (hf _ i)

lemma fetchSlot_later (b j n : ℕ) (s : Oram) :
    Later s ((List.range n).foldl (fetchBlock b j) s) :=
  foldl_later (fun s k => fetchBlock_later b j k s) _ s

lemma fetchSlot_done (b j n : ℕ) (s : Oram) :
    let t := (List.range n).foldl (fetchBlock b j) s
    (t.stash j).valid ≠ 0 ∨ ∀ k < n, (t.tree b k).valid = 0 := by
  induction n with
  | zero => exact .inr fun k hk => absurd hk (Nat.not_lt_zero k)
  | succ n ih =>
    simp only [List.range_succ, List.foldl_append, List.foldl_cons, List.foldl_nil]
    generalize (List.range n).foldl (fetchBlock b j) s = t at ih ⊢
    have hlater := fetchBlock_later b j n t
    obtain htaken | hempty := ih
    · exact .inl (hlater.stash j htaken)
    · refine (fetchBlock_done b j n t).imp_right fun hn k hk => ?_
      obtain hk | rfl := Nat.lt_succ_iff_lt_or_eq.mp hk
      · exact hlater.tree b k (hempty k hk)
      · exact hn

lemma fetchBucket_later (b : ℕ) (s : Oram) : Later s (fetchBucket p b s) :=
  foldl_later (fun s j => fetchSlot_later b j _ s) _ s

lemma fetchBucket_done (b n : ℕ) (s : Oram) :
    let t := (List.range n).foldl
      (fun s j => (List.range p.bucketSize).foldl (fetchBlock b j) s) s
    (∀ j < n, (t.stash j).valid ≠ 0) ∨ ∀ k < p.bucketSize, (t.tree b k).valid = 0 := by
  induction n with
  | zero => exact .inl fun j hj => absurd hj (Nat.not_lt_zero j)
  | succ n ih =>
    simp only [List.range_succ, List.foldl_append, List.foldl_cons, List.foldl_nil]
    generalize (List.range n).foldl
      (fun s j => (List.range p.bucketSize).foldl (fetchBlock b j) s) s = t at ih ⊢
    have hlater := fetchSlot_later b n p.bucketSize t
    obtain hfull | hempty := ih
    · refine (fetchSlot_done b n p.bucketSize t).imp_left fun hn j hj => ?_
      obtain hj | rfl := Nat.lt_succ_iff_lt_or_eq.mp hj
      · exact hlater.stash j (hfull j hj)
      · exact hn
    · exact .inr fun k hk => hlater.tree b k (hempty k hk)

lemma fetchPath_done (leaf : ℤ) (n : ℕ) (s : Oram) :
    let t := (List.range n).foldl (fun s i => fetchBucket p (bucketIdx p leaf i) s) s
    (∀ j < p.stashSize, (t.stash j).valid ≠ 0) ∨
      ∀ i < n, ∀ k < p.bucketSize, (t.tree (bucketIdx p leaf i) k).valid = 0 := by
  induction n with
  | zero => exact .inr fun i hi => absurd hi (Nat.not_lt_zero i)
  | succ n ih =>
    simp only [List.range_succ, List.foldl_append, List.foldl_cons, List.foldl_nil]
    generalize (List.range n).foldl (fun s i => fetchBucket p (bucketIdx p leaf i) s) s = t
      at ih ⊢
    have hlater := fetchBucket_later (p := p) (bucketIdx p leaf n) t
    obtain hfull | hempty := ih
    · exact .inl fun j hj => hlater.stash j (hfull j hj)
    · refine (fetchBucket_done (p := p) (bucketIdx p leaf n) p.stashSize t).imp_right
        fun hn i hi => ?_
      obtain hi | rfl := Nat.lt_succ_iff_lt_or_eq.mp hi
      · exact fun k hk => hlater.tree _ k (hempty i hi k hk)
      · exact hn

lemma stashFull_eq_false : stashFull p s = false ↔ ∃ j < p.stashSize, (s.stash j).valid = 0 := by
  simp [stashFull]

lemma reached_fetchPath {leaf id : ℤ} (hfull : stashFull p (fetchPath p leaf s) = false) :
    Reached p leaf id s ↔ ∃ j < p.stashSize, ((fetchPath p leaf s).stash j).valid ≠ 0 ∧
      ((fetchPath p leaf s).stash j).id = id := by
  rw [Reached, ← (fetchPath_moved (fun _ h => h) s).nonempty_iff]
  constructor
  · rintro ⟨x, hx, hvalid, hid⟩
    cases x with
    | inl j => exact ⟨j, hx, hvalid, hid⟩
    | inr b =>
      obtain ⟨⟨i, hi, hib⟩, hk⟩ := hx
      obtain hall | hempty := fetchPath_done (p := p) leaf p.depth s
      · obtain ⟨j, hj, hfree⟩ := stashFull_eq_false.mp hfull
        exact absurd hfree (hall j hj)
      · have hfree := hempty i hi b.2 hk
        rw [hib] at hfree
        exact absurd hfree hvalid
  · rintro ⟨j, hj, hvalid, hid⟩
    exact ⟨.inl j, hj, hvalid, hid⟩

lemma scan_read {op : Op} (hop : op ≠ .write) (id newLeaf : ℤ) (data : List ℤ)
    (stash : ℕ → StashSlot) (n : ℕ) (j : ℕ) :
    let r := (List.range n).foldl (accessStep op id newLeaf) { stash := stash, data := data }
    (r.stash j).valid = (stash j).valid ∧ (r.stash j).id = (stash j).id := by
  induction n with
  | zero => exact ⟨rfl, rfl⟩
  | succ n ih =>
    simp only [List.range_succ, List.foldl_append, List.foldl_cons, List.foldl_nil]
    generalize (List.range n).foldl (accessStep op id newLeaf) { stash := stash, data := data } = r
      at ih ⊢
    by_cases hj : j = n
    · subst hj
      simpa [accessStep, hop] using ih
    · simpa [accessStep, Function.update_of_ne hj] using ih

lemma accessStep_stash_of_ne {op : Op} {id newLeaf : ℤ} {r : Scan} {n j : ℕ} (hj : j ≠ n) :
    (accessStep op id newLeaf r n).stash j = r.stash j := Function.update_of_ne hj _ _

lemma accessStep_stay {id newLeaf : ℤ} {r : Scan} {n : ℕ}
    (h : r.didWrite = true ∨ (r.stash n).valid ≠ 0) :
    (accessStep .write id newLeaf r n).didWrite = r.didWrite ∧
      (accessStep .write id newLeaf r n).data = r.data ∧
      ∀ j, ((accessStep .write id newLeaf r n).stash j).valid = (r.stash j).valid ∧
        ((accessStep .write id newLeaf r n).stash j).id = (r.stash j).id := by
  have hnew : ¬ (r.didWrite = false ∧ (r.stash n).valid = 0) := by
    rintro ⟨hdid, hvalid⟩
    rw [hdid] at h
    exact h.elim Bool.false_ne_true fun hne => hne hvalid
  refine ⟨by simp [accessStep, hnew], by simp [accessStep], fun j => ?_⟩
  by_cases hj : j = n
  · subst hj
    simp [accessStep, hnew]
  · rw [accessStep_stash_of_ne hj]
    exact ⟨rfl, rfl⟩

/-- The scan of a WRITE puts the id and the data into the first free slot `f`. -/
structure WrittenAt (id : ℤ) (data : List ℤ) (stash : ℕ → StashSlot) (f n : ℕ) (r : Scan) :
    Prop where
  buffer : r.data = data
  didWrite : r.didWrite = decide (f < n)
  rest : ∀ j, j ≠ f ∨ n ≤ f → (r.stash j).valid = (stash j).valid ∧ (r.stash j).id = (stash j).id
  taken : f < n → (r.stash f).valid = 1 ∧ (r.stash f).id = id ∧ (r.stash f).data = data

lemma scan_write {id newLeaf : ℤ} {data : List ℤ} {stash : ℕ → StashSlot} {f : ℕ}
    (hfree : (stash f).valid = 0) (hfirst : ∀ j < f, (stash j).valid ≠ 0) (n : ℕ) :
    WrittenAt id data stash f n
      ((List.range n).foldl (accessStep .write id newLeaf) { stash := stash, data := data }) := by
  induction n with
  | zero =>
    exact ⟨rfl, rfl, fun _ _ => ⟨rfl, rfl⟩, fun h => absurd h (Nat.not_lt_zero f)⟩
  | succ n ih =>
    simp only [List.range_succ, List.foldl_append, List.foldl_cons, List.foldl_nil]
    generalize (List.range n).foldl (accessStep .write id newLeaf)
      { stash := stash, data := data } = r at ih ⊢
    obtain ⟨hdata, hdid, hrest, htaken⟩ := ih
    obtain hn | rfl | hn := Nat.lt_trichotomy n f
    · -- the slots before the free one are taken
      have hvalid : (r.stash n).valid ≠ 0 := by
        rw [(hrest n (.inr hn.le)).1]
        exact hfirst n hn
      obtain ⟨hd, hb, hs⟩ := accessStep_stay (.inr hvalid)
      refine ⟨hb.trans hdata, ?_, fun j _ => ?_, fun h => absurd h (by omega)⟩
      · rw [hd, hdid]
        exact decide_eq_decide.mpr (by omega)
      · have hj := hrest j (.inr hn.le)
        exact ⟨(hs j).1.trans hj.1, (hs j).2.trans hj.2⟩
    · have hvalid : (r.stash n).valid = 0 := by rw [(hrest n (.inr le_rfl)).1, hfree]
      have hnot : r.didWrite = false := by rw [hdid]; simp
      refine ⟨by simp [accessStep, hdata], by simp [accessStep, hnot, hvalid], fun j hj => ?_,
        fun _ => by simp [accessStep, hnot, hvalid, hdata]⟩
      have hne : j ≠ n := hj.elim (fun h => h) fun h => absurd h (by omega)
      rw [accessStep_stash_of_ne hne]
      exact hrest j (.inl hne)
    · -- the block is written already
      have hyes : r.didWrite = true := by rw [hdid]; exact decide_eq_true hn
      obtain ⟨hd, hb, hs⟩ := accessStep_stay (n := n) (.inl hyes)
      refine ⟨hb.trans hdata, ?_, fun j hj => ?_, fun _ => ?_⟩
      · rw [hd, hdid]
        exact decide_eq_decide.mpr (by omega)
      · have hj := hrest j (hj.imp_right fun h => by omega)
        exact ⟨(hs j).1.trans hj.1, (hs j).2.trans hj.2⟩
      · rw [accessStep_stash_of_ne hn.ne]
        exact htaken hn

lemma evictStep_mark {leaf : ℤ} {i : ℕ} {e e' : Eviction} (h : evictStep p leaf i e = some e')
    (j : ℕ) : (e'.stash j).valid = (e.stash j).valid ∧ (e'.stash j).id = (e.stash j).id := by
  simp only [evictStep] at h
  split at h
  · split at h
    · cases h
      by_cases hj : j = i
      · subst hj
        simp
      · simp [Function.update_of_ne hj]
    · cases h
  · cases h
    by_cases hj : j = i
    · subst hj
      simp
    · simp [Function.update_of_ne hj]

lemma writeBackStep_kept {leaf : ℤ} {wbPath : ℕ → ℤ} {t : ℕ} {w w' : WriteBack}
    (h : writeBackStep p leaf wbPath t w = some w') : Kept p R w.oram w'.oram := by
  simp only [writeBackStep] at h
  split at h
  · split at h
    · next hlt =>
      cases h
      refine kept_of_swap (a := .inl w.movStashIdx)
        (b := .inr (bucketIdx p leaf (t / p.bucketSize), t % p.bucketSize)) hlt ?_ ?_ ?_
      · simp
      · simp
      · intro x hxa hxb
        cases x with
        | inl i =>
          have hi : i ≠ w.movStashIdx := fun h => hxa (by rw [h])
          simp [Function.update_of_ne hi]
        | inr c =>
          obtain ⟨c, l⟩ := c
          by_cases hc : c = bucketIdx p leaf (t / p.bucketSize)
          · subst hc
            have hl : l ≠ t % p.bucketSize := fun h => hxb (by rw [h])
            simp [Function.update_of_ne hl]
          · simp [Function.update_of_ne hc]
    · cases h
  · cases h
    exact (Moved.refl _).kept

lemma kept_sort {sort : (ℕ → StashSlot) → ℕ → StashSlot} (hsort : Permutes p sort) (s : Oram)
    (stash : ℕ → StashSlot)
    (hstash : ∀ j, (stash j).valid = (s.stash j).valid ∧ (stash j).id = (s.stash j).id) :
    Kept p R s { s with stash := sort stash } := by
  obtain ⟨e, he, hsorted⟩ := hsort stash
  refine ⟨Equiv.sumCongr e (Equiv.refl _), fun id x hx => ?_⟩
  obtain ⟨hx, hvalid, hid⟩ := hx
  cases x with
  | inl j =>
    simp only [Oram.mark_inl, hsorted j hx, (hstash (e j)).1, (hstash (e j)).2] at hvalid hid
    exact ⟨he j hx, hvalid, hid⟩
  | inr b => exact ⟨hx, hvalid, hid⟩

lemma storeBlocks_kept {sort : (ℕ → StashSlot) → ℕ → StashSlot} (hsort : Permutes p sort)
    {leaf : ℤ} (h : storeBlocks p sort leaf s = some s') : Kept p R s s' := by
  rw [storeBlocks, Option.bind_eq_some_iff] at h
  obtain ⟨e, he, h⟩ := h
  rw [Option.map_eq_some_iff] at h
  obtain ⟨w, hw, rfl⟩ := h
  have hmark : ∀ j, (e.stash j).valid = (s.stash j).valid ∧ (e.stash j).id = (s.stash j).id := by
    refine run_invariant (P := fun _ _ => True)
      (Q := fun e : Eviction => ∀ j,
        (e.stash j).valid = (s.stash j).valid ∧ (e.stash j).id = (s.stash j).id)
      (fun i e e' he _ hstep j => ?_) (fun j => ⟨rfl, rfl⟩)
      (along_of_forall (fun _ _ => trivial) _ _) he
    obtain ⟨hvalid, hid⟩ := evictStep_mark hstep j
    exact ⟨hvalid.trans (he j).1, hid.trans (he j).2⟩
  refine run_invariant (P := fun _ _ => True) (Q := fun w : WriteBack => Kept p R s w.oram)
    (fun i w w' hw _ hstep => hw.trans (writeBackStep_kept hstep)) ?_
    (along_of_forall (fun _ _ => trivial) _ _) hw
  exact kept_sort hsort s e.stash hmark

variable {c : Call} {leaf : ℤ} {data : List ℤ}

lemma accessFetch_eq_some (h : accessFetch p c s = some (leaf, s', data)) :
    ∃ s₁, s₁.mark = s.mark ∧ stashFull p (fetchPath p leaf s₁) = false ∧
      s' = { fetchPath p leaf s₁ with
        stash := (accessStash p c.op c.id (genRandLeaf p c.r2) c.data
          (fetchPath p leaf s₁).stash).stash } := by
  rw [accessFetch, Option.bind_eq_some_iff] at h
  obtain ⟨r, hr, h⟩ := h
  simp only [Option.map_eq_some_iff, Prod.mk.injEq, fetchBlocks] at h
  obtain ⟨x, hx, rfl, rfl⟩ := h
  simp only [retrieve] at hr
  split at hr
  · cases hr
    split at hx
    · cases hx
    · next hfull =>
      cases hx
      refine ⟨_, ?_, Bool.not_eq_true _ ▸ hfull, rfl⟩
      funext x
      cases x <;> rfl
  · cases hr

lemma places_congr (h : s'.mark = s.mark) (id : ℤ) : places p R s' id = places p R s id := by
  simp only [places, h]

lemma accessStash_write {t : Oram} (hfull : stashFull p t = false) (id newLeaf : ℤ)
    (data : List ℤ) :
    let t' := { t with stash := (accessStash p .write id newLeaf data t.stash).stash }
    ∃ f < p.stashSize, (t.stash f).valid = 0 ∧ (∀ x, x ≠ .inl f → t'.mark x = t.mark x) ∧
      (t'.stash f).valid = 1 ∧ (t'.stash f).id = id ∧ (t'.stash f).data = data := by
  intro t'
  have hex := stashFull_eq_false.mp hfull
  have hfirst : ∀ j < Nat.find hex, (t.stash j).valid ≠ 0 := fun j hj hvalid =>
    Nat.find_min hex hj ⟨hj.trans (Nat.find_spec hex).1, hvalid⟩
  obtain ⟨hf, hfree⟩ := Nat.find_spec hex
  have hscan : WrittenAt id data t.stash (Nat.find hex) p.stashSize
      (accessStash p .write id newLeaf data t.stash) := scan_write hfree hfirst p.stashSize
  refine ⟨Nat.find hex, hf, hfree, fun x hx => ?_, hscan.taken hf⟩
  cases x with
  | inl j =>
    have hj : j ≠ Nat.find hex := fun h => hx (by rw [h])
    obtain ⟨hvalid, hid⟩ := hscan.rest j (.inl hj)
    exact Prod.ext hvalid hid
  | inr b => rfl

lemma accessStash_read {t : Oram} {op : Op} (hop : op ≠ .write) (id newLeaf : ℤ)
    (data : List ℤ) :
    { t with stash := (accessStash p op id newLeaf data t.stash).stash }.mark = t.mark := by
  funext x
  cases x with
  | inl j =>
    obtain ⟨hvalid, hid⟩ := scan_read hop id newLeaf data t.stash p.stashSize j
    exact Prod.ext hvalid hid
  | inr b => rfl

lemma accessFetch_unique (hR : ∀ b, OnPath p leaf b → R b) (hs : Unique p R s)
    (hnew : c.op = .write → ¬ (places p R s c.id).Nonempty)
    (h : accessFetch p c s = some (leaf, s', data)) : Unique p R s' := by
  obtain ⟨s₁, hmark, hfull, rfl⟩ := accessFetch_eq_some h
  have hmoved : Moved p R s (fetchPath p leaf s₁) :=
    (moved_of_mark hmark).trans (fetchPath_moved hR s₁)
  have hunique := hs.kept hmoved.kept
  rw [← hmoved.nonempty_iff] at hnew
  intro id
  by_cases hop : c.op = .write
  · rw [hop]
    obtain ⟨f, hf, hfree, hrest, hvalid, hid, -⟩ :=
      accessStash_write hfull c.id (genRandLeaf p c.r2) c.data
    exact hunique.insert hrest hid (hnew hop) id
  · rw [places_congr (accessStash_read hop c.id (genRandLeaf p c.r2) c.data)]
    exact hunique id

lemma Unique.once (h : Unique p R s) {i j : ℕ} (hi : i < p.stashSize) (hj : j < p.stashSize)
    (hvi : (s.stash i).valid ≠ 0) (hvj : (s.stash j).valid ≠ 0)
    (hid : (s.stash i).id = (s.stash j).id) : i = j := by
  have hij := h (s.stash j).id (x := .inl i) ⟨hi, hvi, hid⟩ (y := .inl j) ⟨hj, hvj, rfl⟩
  exact Sum.inl.inj hij

lemma places_initOram (m : Oram) (id : ℤ) : places p (InTree p) (initOram p m) id = ∅ := by
  refine Set.eq_empty_of_forall_notMem fun x hx => ?_
  obtain ⟨hx, hvalid, -⟩ := hx
  apply hvalid
  cases x with
  | inl j =>
    have hj : j < p.stashSize := hx
    simp only [initOram, Oram.mark_inl]
    rw [if_pos hj]
  | inr b =>
    have hb : b.1 < 1 <<< p.depth ∧ b.2 < p.bucketSize := hx
    simp only [initOram, Oram.mark]
    rw [if_pos hb]

lemma unique_initOram (m : Oram) : Unique p (InTree p) (initOram p m) := by
  intro id
  rw [places_initOram]
  exact Set.subsingleton_empty

lemma writesNew_initOram (c : Call) (m : Oram) : WritesNew p c (initOram p m) := by
  intro _ hstored
  rw [Stored, places_initOram] at hstored
  exact Set.not_nonempty_empty hstored

lemma unique_run {sort : (ℕ → StashSlot) → ℕ → StashSlot} (hsort : Permutes p sort) {m : Oram}
    {cs : List Call} (hnew : Along (step p sort) (WritesNew p) cs (initOram p m))
    (hrun : run (step p sort) cs (initOram p m) = some s) : Unique p (InTree p) s := by
  refine run_invariant (Q := Unique p (InTree p)) (fun c s s' hs hc hstep => ?_)
    (unique_initOram m) hnew hrun
  simp only [step, Option.map_eq_some_iff, Prod.exists, exists_and_right, exists_eq_right,
    accessOram, Option.bind_eq_some_iff] at hstep
  obtain ⟨data, leaf, t, data', hfetch, u, hstore, hu⟩ := hstep
  cases hu
  have ht := accessFetch_unique (fun b hb => hb.inTree) hs hc hfetch
  exact ht.kept (storeBlocks_kept hsort hstore)

/-- **Unique ids.** At most one entry of the stash has any given id after the next `Fetch_Blocks`,
iff the call is no WRITE of an id that is in the stash or on the path. -/
theorem fetchedOnce_iff {sort : (ℕ → StashSlot) → ℕ → StashSlot} (hsort : Permutes p sort)
    {m : Oram} {cs : List Call} (hnew : Along (step p sort) (WritesNew p) cs (initOram p m))
    (hrun : run (step p sort) cs (initOram p m) = some s)
    (hfetch : accessFetch p c s = some (leaf, s', data)) :
    FetchedOnce p c s s' ↔ (c.op = .write → ¬ Reached p leaf c.id s) := by
  constructor
  · intro honce hop hreached
    obtain ⟨s₁, hmark, hfull, rfl⟩ := accessFetch_eq_some hfetch
    rw [Reached, ← places_congr hmark] at hreached
    obtain ⟨j, hj, hvalid, hid⟩ := (reached_fetchPath hfull).mp hreached
    obtain ⟨f, hf, hfree, hrest, hvalidf, hidf, -⟩ :=
      accessStash_write hfull c.id (genRandLeaf p c.r2) c.data
    have hjf : j ≠ f := fun h => hvalid (by rw [h, hfree])
    have hmarkj := hrest (.inl j) fun h => hjf (Sum.inl.inj h)
    rw [← hop] at hmarkj hvalidf hidf
    obtain ⟨hvalidj, hidj⟩ := Prod.mk.inj hmarkj
    refine hjf (honce.once j hj f hf ?_ ?_ ?_)
    · rwa [hvalidj]
    · rw [hvalidf]
      exact one_ne_zero
    · rw [hidj, hid, hidf]
  · intro hnot
    have hpath : Unique p (OnPath p leaf) s :=
      (unique_run hsort hnew hrun).anti fun b hb => hb.inTree
    have hunique := accessFetch_unique (fun b hb => hb) hpath hnot hfetch
    refine ⟨fun i hi j hj hvi hvj hid => hunique.once hi hj hvi hvj hid, fun hop _ => ?_⟩
    obtain ⟨s₁, hmark, hfull, rfl⟩ := accessFetch_eq_some hfetch
    obtain ⟨f, hf, -, -, hvalidf, hidf, hdataf⟩ :=
      accessStash_write hfull c.id (genRandLeaf p c.r2) c.data
    rw [← hop] at hvalidf hidf hdataf
    refine ⟨f, hf, ?_, hidf, hdataf⟩
    rw [hvalidf]
    exact one_ne_zero

/-- A tree of one bucket with one place, and a stash of two slots -/
def oneBucket : Params where
  bucketSize := 1
  numRealBlocks := 1
  C := 1
  numRealBlocks_pos := Nat.one_pos
  depth_le := by decide +kernel

/-- The arrays of `malloc` with zeros -/
def zeros : Oram where
  tree _ _ := ⟨0, 0, 0, []⟩
  stash _ := ⟨0, 0, 0, 0, []⟩
  posMap _ := ⟨0, 0, 0⟩

/-- The sort of two slots -/
def sortTwo (stash : ℕ → StashSlot) : ℕ → StashSlot :=
  if (stash 1).key < (stash 0).key then stash ∘ Equiv.swap 0 1 else stash

def readOne : Call := ⟨.read, 1, [0], 0, 0⟩
def writeOne (word : ℤ) : Call := ⟨.write, 1, [word], 0, 0⟩

lemma permutes_sortTwo : Permutes oneBucket sortTwo := by
  have hsize : oneBucket.stashSize = 2 := by decide +kernel
  intro stash
  rw [hsize, sortTwo]
  split
  · refine ⟨Equiv.swap 0 1, fun i hi => ?_, fun i _ => rfl⟩
    obtain rfl | rfl : i = 0 ∨ i = 1 := by omega
    · exact Equiv.swap_apply_left 0 1 ▸ one_lt_two
    · exact Equiv.swap_apply_right 0 1 ▸ two_pos
  · exact ⟨Equiv.refl _, fun i hi => hi, fun i _ => rfl⟩

/-- A slot of the stash after the call `c` has fetched its blocks, in an ORAM where the id 1 was
written. -/
def fetchedSlot (c : Call) (j : ℕ) : Option StashSlot :=
  (run (step oneBucket sortTwo) [writeOne 7] (initOram oneBucket zeros)).bind fun s =>
    (accessFetch oneBucket c s).map fun x => x.2.1.stash j

lemma fetchedSlot_eq_some {c : Call} {j : ℕ} {slot : StashSlot}
    (h : fetchedSlot c j = some slot) :
    ∃ s leaf s' data,
      run (step oneBucket sortTwo) [writeOne 7] (initOram oneBucket zeros) = some s ∧
      accessFetch oneBucket c s = some (leaf, s', data) ∧ s'.stash j = slot := by
  simp only [fetchedSlot, Option.bind_eq_some_iff, Option.map_eq_some_iff, Prod.exists] at h
  obtain ⟨s, hrun, leaf, s', data, hfetch, hslot⟩ := h
  exact ⟨s, leaf, s', data, hrun, hfetch, hslot⟩

/-- Once the id 1 is written, a READ finds one entry of it. -/
theorem fetchedOnce_iff_readOne :
    ∃ s leaf s' data,
      run (step oneBucket sortTwo) [writeOne 7] (initOram oneBucket zeros) = some s ∧
      accessFetch oneBucket readOne s = some (leaf, s', data) ∧
      s'.stash 0 = ⟨0, 1, 1, 0, [7]⟩ ∧ FetchedOnce oneBucket readOne s s' := by
  have hslot : fetchedSlot readOne 0 = some ⟨0, 1, 1, 0, [7]⟩ := by decide +kernel
  obtain ⟨s, leaf, s', data, hrun, hfetch, h0⟩ := fetchedSlot_eq_some hslot
  have hnew : Along (step oneBucket sortTwo) (WritesNew oneBucket) [writeOne 7]
      (initOram oneBucket zeros) := by
    refine ⟨writesNew_initOram _ _, ?_⟩
    cases step oneBucket sortTwo (writeOne 7) (initOram oneBucket zeros) <;> trivial
  refine ⟨s, leaf, s', data, hrun, hfetch, h0, ?_⟩
  exact (fetchedOnce_iff permutes_sortTwo hnew hrun hfetch).mpr fun hop => absurd hop (by decide)

/-- The second WRITE of an id makes a second entry. -/
theorem fetchedOnce_fails :
    ∃ s leaf s' data,
      run (step oneBucket sortTwo) [writeOne 7] (initOram oneBucket zeros) = some s ∧
      accessFetch oneBucket (writeOne 8) s = some (leaf, s', data) ∧
      ¬ FetchedOnce oneBucket (writeOne 8) s s' := by
  have hslot : fetchedSlot (writeOne 8) 0 = some ⟨0, 1, 1, 0, [8]⟩ := by decide +kernel
  have hslot' : fetchedSlot (writeOne 8) 1 = some ⟨maxInt, 1, 1, 0, [8]⟩ := by decide +kernel
  obtain ⟨s, leaf, s', data, hrun, hfetch, h0⟩ := fetchedSlot_eq_some hslot
  have h1 : s'.stash 1 = ⟨maxInt, 1, 1, 0, [8]⟩ := by
    rw [fetchedSlot, hrun, Option.bind_some, hfetch] at hslot'
    exact Option.some.inj hslot'
  refine ⟨s, leaf, s', data, hrun, hfetch, fun h => ?_⟩
  have hsize : oneBucket.stashSize = 2 := by decide +kernel
  have h01 := h.once 0 (by rw [hsize]; decide) 1 (by rw [hsize]; decide) (by rw [h0]; decide)
    (by rw [h1]; decide) (by rw [h0, h1])
  exact absurd h01 (by decide)

end OISA.Primitives.Suboptimal
