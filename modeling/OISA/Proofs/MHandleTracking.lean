import OISA.Lib.Runs
import OISA.Util.MHandle

/-!
# What the allocation tracker knows

The table always holds the live pointers with their sizes, and both counters are right.
-/

namespace OISA.Util.MHandle

open OISA.Lib

variable {s s' : MHandle} {ptr size : BitVec 64} {label : String} {corrupt_info : Bool}

abbrev Live := List (BitVec 64 × BitVec 64)

variable {live : Live}

section Live

def liveStep (live : Live) : Op → Live
  | .insert ptr size _ _ => (ptr, size) :: live
  | .remove ptr => live.filter (·.1 ≠ ptr)
  | .free ptr _ => if ptr = 0 then live else live.filter (·.1 ≠ ptr)

/-- The live pointers after some operations -/
def liveAfter (ops : List Op) : Live := ops.foldl liveStep []

def sizes (live : Live) : ℕ := (live.map (·.2.toNat)).sum

def Contains (s : MHandle) (ptr size : BitVec 64) : Prop :=
  ∃ i < s.hash_table_size, (s.hash_table i).used ∧ (s.hash_table i).ptr = ptr ∧
    (s.hash_table i).size = size

/-- An inserted pointer is new. -/
def Fresh : Op → MHandle → Prop
  | .insert ptr _ _ _, s =>
    ∀ i < s.hash_table_size, (s.hash_table i).used → (s.hash_table i).ptr ≠ ptr
  | _, _ => True

instance : (op : Op) → (s : MHandle) → Decidable (Fresh op s)
  | .insert ptr _ _ _, s => inferInstanceAs
      (Decidable (∀ i < s.hash_table_size, (s.hash_table i).used → (s.hash_table i).ptr ≠ ptr))
  | .remove _, _ => inferInstanceAs (Decidable True)
  | .free _ _, _ => inferInstanceAs (Decidable True)

/-- A lookup ends, and finds the pointer with its size if and only if it is live. -/
def Answers (s : MHandle) (live : Live) (ptr : BitVec 64) : Prop :=
  ∃ steps found, hash_table_get steps s ptr = some found ∧
    ∀ size, (ptr, size) ∈ live ↔ ∃ i, found = some i ∧ (s.hash_table i).size = size

lemma perm_filter (hkeys : (live.map (·.1)).Nodup) (h : (ptr, size) ∈ live) :
    live.Perm ((ptr, size) :: live.filter (·.1 ≠ ptr)) := by
  have hnodup : live.Nodup := hkeys.of_map _
  rw [List.perm_ext_iff_of_nodup hnodup]
  · intro p
    simp only [List.mem_cons, List.mem_filter, decide_eq_true_eq]
    constructor
    · intro hp
      by_cases heq : p.1 = ptr
      · exact Or.inl (List.inj_on_of_nodup_map hkeys hp h heq)
      · exact Or.inr ⟨hp, heq⟩
    · rintro (rfl | hp)
      · exact h
      · exact hp.1
  · exact List.nodup_cons.mpr ⟨by simp, hnodup.filter _⟩

end Live

section Tables

/-- An item lies where the probe for its pointer gets, and a pointer has one item. -/
structure Probed (s : MHandle) : Prop where
  pos : 0 < s.hash_table_size
  alone : ∀ i < s.hash_table_size, ∀ j < s.hash_table_size, (s.hash_table i).used →
    (s.hash_table j).used → (s.hash_table i).ptr = (s.hash_table j).ptr → i = j
  path : ∀ i < s.hash_table_size, (s.hash_table i).used →
    ∃ d, i = (s.hash (s.hash_table i).ptr + d) % s.hash_table_size ∧
      ∀ e < d, (s.hash_table ((s.hash (s.hash_table i).ptr + e) % s.hash_table_size)).active

lemma Probed.hash_lt (h : Probed s) (ptr : BitVec 64) : s.hash ptr < s.hash_table_size :=
  Nat.mod_lt _ h.pos

lemma active_of_used {item : mhandle_item_t} (h : item.used) : item.active := by
  rw [mhandle_item_t.used, Bool.and_eq_true] at h
  exact h.1

lemma Probed.exists_unused (h : Probed s) (hlive : ∀ p z, Contains s p z → (p, z) ∈ live)
    (hroom : live.length < s.hash_table_size) :
    ∃ i < s.hash_table_size, (!(s.hash_table i).used) = true := by
  by_contra! hfull
  have hused : ∀ i < s.hash_table_size, (s.hash_table i).used := by
    intro i hi
    simpa using hfull i hi
  have hcard : (Finset.range s.hash_table_size).card ≤ live.toFinset.card := by
    apply Finset.card_le_card_of_injOn
      (fun i => ((s.hash_table i).ptr, (s.hash_table i).size))
    · intro i hi
      have hi := Finset.mem_range.mp hi
      exact List.mem_toFinset.mpr (hlive _ _ ⟨i, hi, hused i hi, rfl, rfl⟩)
    · intro i hi j hj heq
      have hi := Finset.mem_range.mp hi
      have hj := Finset.mem_range.mp hj
      exact h.alone i hi j hj (hused i hi) (hused j hj) (Prod.ext_iff.mp heq).1
  rw [Finset.card_range] at hcard
  have := live.toFinset_card_le
  omega

lemma hash_eq (hsize : s'.hash_table_size = s.hash_table_size) (ptr : BitVec 64) :
    s'.hash ptr = s.hash ptr := by
  rw [hash, hash, hsize]

/-- What putting a new pointer into the unused slot where its probe gets does -/
lemma Probed.put (h : Probed s) (item : mhandle_item_t) {index d : ℕ}
    (hindex : index < s.hash_table_size) (hunused : (s.hash_table index).used = false)
    (hd : index = (s.hash item.ptr + d) % s.hash_table_size)
    (hpath : ∀ e < d, (s.hash_table ((s.hash item.ptr + e) % s.hash_table_size)).active)
    (hitem : item.used) (hnew : ∀ z, ¬ Contains s item.ptr z)
    (htable : s'.hash_table = Function.update s.hash_table index item)
    (hsize : s'.hash_table_size = s.hash_table_size) :
    Probed s' ∧ ∀ p z, Contains s' p z ↔ p = item.ptr ∧ z = item.size ∨ Contains s p z := by
  have hself : s'.hash_table index = item := by rw [htable, Function.update_self]
  have hother : ∀ i, i ≠ index → s'.hash_table i = s.hash_table i := by
    intro i hi
    rw [htable, Function.update_of_ne hi]
  have hne : ∀ i, (s.hash_table i).used → i ≠ index := by
    rintro i hi rfl
    rw [hunused] at hi
    cases hi
  have hptr : ∀ i < s.hash_table_size, i ≠ index → (s'.hash_table i).used →
      (s'.hash_table i).ptr ≠ item.ptr := by
    intro i hi hii hused heq
    rw [hother i hii] at hused heq
    exact hnew _ ⟨i, hi, hused, heq, rfl⟩
  have hactive : ∀ i, (s.hash_table i).active → (s'.hash_table i).active := by
    intro i hi
    by_cases hii : i = index
    · rw [hii, hself]
      exact active_of_used hitem
    · rw [hother i hii]
      exact hi
  refine ⟨⟨hsize ▸ h.pos, ?_, ?_⟩, ?_⟩
  · intro i hi j hj hused hused' heq
    rw [hsize] at hi hj
    by_cases hii : i = index
    · by_cases hji : j = index
      · rw [hii, hji]
      · rw [hii, hself] at heq
        exact absurd heq.symm (hptr j hj hji hused')
    · by_cases hji : j = index
      · rw [hji, hself] at heq
        exact absurd heq (hptr i hi hii hused)
      · rw [hother i hii, hother j hji] at heq
        rw [hother i hii] at hused
        rw [hother j hji] at hused'
        exact h.alone i hi j hj hused hused' heq
  · intro i hi hused
    rw [hsize] at hi ⊢
    rw [hash_eq hsize]
    by_cases hii : i = index
    · rw [hii, hself]
      exact ⟨d, hd, fun e he => hactive _ (hpath e he)⟩
    · rw [hother i hii] at hused ⊢
      obtain ⟨d, hd, hpath⟩ := h.path i hi hused
      exact ⟨d, hd, fun e he => hactive _ (hpath e he)⟩
  · intro p z
    constructor
    · rintro ⟨i, hi, hused, rfl, rfl⟩
      by_cases hii : i = index
      · rw [hii, hself]
        exact Or.inl ⟨rfl, rfl⟩
      · rw [hother i hii] at hused ⊢
        exact Or.inr ⟨i, hsize ▸ hi, hused, rfl, rfl⟩
    · rintro (⟨rfl, rfl⟩ | ⟨i, hi, hused, rfl, rfl⟩)
      · exact ⟨index, hsize ▸ hindex, by rw [hself]; exact ⟨hitem, rfl, rfl⟩⟩
      · exact ⟨i, hsize ▸ hi, by rw [hother i (hne i hused)]; exact ⟨hused, rfl, rfl⟩⟩

/-- What marking an item as removed does -/
lemma Probed.mark (h : Probed s) {index : ℕ} (hindex : index < s.hash_table_size)
    (hused : (s.hash_table index).used)
    (htable : s'.hash_table =
      Function.update s.hash_table index { s.hash_table index with removed := true })
    (hsize : s'.hash_table_size = s.hash_table_size) :
    Probed s' ∧ ∀ p z, Contains s' p z ↔ p ≠ (s.hash_table index).ptr ∧ Contains s p z := by
  have hself : (s'.hash_table index).used = false := by
    rw [htable, Function.update_self, mhandle_item_t.used]
    exact Bool.and_false _
  have hother : ∀ i, (s'.hash_table i).used → s'.hash_table i = s.hash_table i ∧ i ≠ index := by
    intro i hi
    have hii : i ≠ index := by
      rintro rfl
      rw [hself] at hi
      cases hi
    rw [htable, Function.update_of_ne hii]
    exact ⟨rfl, hii⟩
  have hactive : ∀ i, (s.hash_table i).active → (s'.hash_table i).active := by
    intro i hi
    rw [htable]
    by_cases hii : i = index
    · rw [hii, Function.update_self]
      exact hii ▸ hi
    · rw [Function.update_of_ne hii]
      exact hi
  refine ⟨⟨hsize ▸ h.pos, ?_, ?_⟩, ?_⟩
  · intro i hi j hj hi' hj' heq
    obtain ⟨hieq, -⟩ := hother i hi'
    obtain ⟨hjeq, -⟩ := hother j hj'
    rw [hieq] at hi' heq
    rw [hjeq] at hj' heq
    exact h.alone i (hsize ▸ hi) j (hsize ▸ hj) hi' hj' heq
  · intro i hi hi'
    obtain ⟨hieq, -⟩ := hother i hi'
    rw [hieq] at hi' ⊢
    rw [hash_eq hsize, hsize]
    obtain ⟨d, hd, hpath⟩ := h.path i (hsize ▸ hi) hi'
    exact ⟨d, hd, fun e he => hactive _ (hpath e he)⟩
  · intro p z
    constructor
    · rintro ⟨i, hi, hi', rfl, rfl⟩
      obtain ⟨heq, hii⟩ := hother i hi'
      rw [heq] at hi' ⊢
      refine ⟨fun hptr => hii ?_, i, hsize ▸ hi, hi', rfl, rfl⟩
      exact h.alone i (hsize ▸ hi) index hindex hi' hused hptr
    · rintro ⟨hne, i, hi, hi', rfl, rfl⟩
      have hii : i ≠ index := fun heq => hne (heq ▸ rfl)
      refine ⟨i, hsize ▸ hi, ?_⟩
      rw [htable, Function.update_of_ne hii]
      exact ⟨hi', rfl, rfl⟩

end Tables

section Operations

lemma Probed.insertItem (h : Probed s) (size : BitVec 64) (label : String) (corrupt_info : Bool)
    (hunused : ∃ i < s.hash_table_size, (!(s.hash_table i).used) = true)
    (hnew : ∀ z, ¬ Contains s ptr z) :
    ∃ s', s.insertItem ptr size label corrupt_info = some s' ∧ Probed s' ∧
      (∀ p z, Contains s' p z ↔ p = ptr ∧ z = size ∨ Contains s p z) ∧
      s'.hash_table_size = s.hash_table_size ∧ s'.hash_table_count = s.hash_table_count + 1 ∧
      s'.mem_used = s.mem_used + size := by
  obtain ⟨d, hd, hstop, hfirst, hprobe⟩ := exists_probe (h.hash_lt ptr) hunused
  have hpath : ∀ e < d, (s.hash_table ((s.hash ptr + e) % s.hash_table_size)).active := by
    intro e he
    exact active_of_used (by simpa using hfirst e he)
  have hput := fun table (htable : table = _) =>
    h.put ⟨ptr, size, label, false, true, corrupt_info⟩ (Nat.mod_lt (s.hash ptr + d) h.pos)
      (by simpa using hstop) rfl hpath rfl hnew
      (show (MHandle.mk (s.mem_used + size) table s.hash_table_size
        (s.hash_table_count + 1)).hash_table = _ from htable) rfl
  obtain ⟨hprobed, hcontains⟩ := hput _ rfl
  refine ⟨_, ?_, hprobed, hcontains, rfl, rfl, rfl⟩
  rw [MHandle.insertItem, hprobe _ hd]
  rfl

def getStop (s : MHandle) (ptr : BitVec 64) (i : ℕ) : Bool :=
  ((s.hash_table i).ptr = ptr ∧ (s.hash_table i).used) ∨ !(s.hash_table i).active

lemma get_eq (steps : ℕ) (s : MHandle) (ptr : BitVec 64) : hash_table_get steps s ptr =
    (probe (getStop s ptr) s.hash_table_size steps (s.hash ptr)).map fun idx =>
      if (s.hash_table idx).ptr = ptr ∧ (s.hash_table idx).used then some idx else none := by
  rw [hash_table_get, Option.map_eq_bind]
  rfl

lemma Probed.get_of_contains (h : Probed s) (hptr : Contains s ptr size) :
    ∃ i < s.hash_table_size, (s.hash_table i).used ∧ (s.hash_table i).ptr = ptr ∧
      (s.hash_table i).size = size ∧ hash_table_get s.hash_table_size s ptr = some (some i) := by
  obtain ⟨i, hi, hused, rfl, rfl⟩ := hptr
  refine ⟨i, hi, hused, rfl, rfl, ?_⟩
  have hat : getStop s (s.hash_table i).ptr i = true := by simp [getStop, hused]
  obtain ⟨d, hd, hstop, hfirst, hprobe⟩ :=
    exists_probe (h.hash_lt (s.hash_table i).ptr) ⟨i, hi, hat⟩
  obtain ⟨d', hd', hpath⟩ := h.path i hi hused
  have hfound : (s.hash (s.hash_table i).ptr + d) % s.hash_table_size = i := by
    rw [getStop, decide_eq_true_eq] at hstop
    cases hstop with
    | inl hfound => exact h.alone _ (Nat.mod_lt _ h.pos) i hi hfound.2 hused hfound.1
    | inr hinactive =>
      -- The slots up to the item are active, and the probe does not go beyond it.
      rcases Nat.lt_trichotomy d d' with hlt | rfl | hgt
      · rw [hpath d hlt] at hinactive
        cases hinactive
      · exact hd'.symm
      · have hbefore := hfirst d' hgt
        rw [← hd'] at hbefore
        exact absurd hat hbefore
  rw [get_eq, hprobe _ hd, hfound, Option.map_some, if_pos ⟨rfl, hused⟩]

lemma Probed.get_of_not_contains (h : Probed s) (hptr : ∀ z, ¬ Contains s ptr z)
    (hinactive : ∃ i < s.hash_table_size, (s.hash_table i).active = false) :
    hash_table_get s.hash_table_size s ptr = some none := by
  obtain ⟨i, hi, hinactive⟩ := hinactive
  have hat : getStop s ptr i = true := by simp [getStop, hinactive]
  obtain ⟨d, hd, hstop, -, hprobe⟩ := exists_probe (h.hash_lt ptr) ⟨i, hi, hat⟩
  rw [get_eq, hprobe _ hd, Option.map_some, if_neg]
  intro hfound
  exact hptr _ ⟨_, Nat.mod_lt _ h.pos, hfound.2, hfound.1, rfl⟩

lemma Probed.get_endless (h : Probed s) (hptr : ∀ z, ¬ Contains s ptr z)
    (hactive : ∀ i < s.hash_table_size, (s.hash_table i).active) (steps : ℕ) :
    hash_table_get steps s ptr = none := by
  rw [get_eq, probe_eq_none (h.hash_lt ptr), Option.map_none]
  intro i hi hstop
  rw [getStop, decide_eq_true_eq, hactive i hi] at hstop
  cases hstop with
  | inl hfound => exact hptr _ ⟨i, hi, hfound.2, hfound.1, rfl⟩
  | inr hfalse => cases hfalse

end Operations

section Runs

structure Tracks (s : MHandle) (live : Live) : Prop where
  probed : Probed s
  small : s.hash_table_size < 2 ^ 31
  keys : (live.map (·.1)).Nodup
  contains : ∀ p z, Contains s p z ↔ (p, z) ∈ live
  count : s.hash_table_count = live.length
  room : s.hash_table_count ≤ s.hash_table_size / 2
  mem : s.mem_used = BitVec.ofNat 64 (sizes live)

lemma tracks_init : Tracks init [] where
  probed := ⟨by decide, fun _ _ _ _ h => (by cases h), fun _ _ h => (by cases h)⟩
  small := by decide
  keys := List.nodup_nil
  contains p z := by
    constructor
    · rintro ⟨i, -, hused, -⟩
      cases hused
    · intro h
      cases h
  count := rfl
  room := Nat.zero_le _
  mem := rfl

/-- The new table holds the pointers of the first slots of the old one. -/
structure Growing (s new : MHandle) (k : ℕ) : Prop where
  probed : Probed new
  contains : ∀ p z, Contains new p z ↔ ∃ i < k, (s.hash_table i).used ∧
    (s.hash_table i).ptr = p ∧ (s.hash_table i).size = z
  size : new.hash_table_size = s.hash_table_size * 2
  count : new.hash_table_count = s.hash_table_count
  mem : new.mem_used = s.mem_used

lemma Growing.reinsert {new : MHandle} {k : ℕ} (hgrow : Growing s new k) (h : Tracks s live)
    (hk : k < s.hash_table_size) (depth : ℕ) :
    ∃ new', reinsert (hash_table_insert (depth + 1)) s new k = some new' ∧
      Growing s new' (k + 1) := by
  have hroom := h.room
  have hpos := h.probed.pos
  unfold MHandle.reinsert
  by_cases hused : (s.hash_table k).used
  · rw [if_pos hused]
    have hcontains : ∀ p z, Contains new p z → (p, z) ∈ live := by
      intro p z hp
      obtain ⟨i, hi, hp⟩ := (hgrow.contains p z).mp hp
      exact (h.contains p z).mp ⟨i, hi.trans hk, hp⟩
    have hcount : 0 < s.hash_table_count := by
      rw [h.count]
      exact List.length_pos_of_mem ((h.contains _ _).mp ⟨k, hk, hused, rfl, rfl⟩)
    have hnew : ∀ z, ¬ Contains new (s.hash_table k).ptr z := by
      intro z hz
      obtain ⟨i, hi, hused', hptr, -⟩ := (hgrow.contains _ z).mp hz
      have := h.probed.alone i (hi.trans hk) k hk hused' hused hptr
      omega
    have hunused := hgrow.probed.exists_unused hcontains
      (by rw [hgrow.size, ← h.count]; omega)
    have hprobed : Probed { new with
        hash_table_count := new.hash_table_count - 1
        mem_used := new.mem_used - (s.hash_table k).size } :=
      ⟨hgrow.probed.pos, hgrow.probed.alone, hgrow.probed.path⟩
    obtain ⟨new', hinsert, hprobed, hcontains', hsize, hcount', hmem⟩ :=
      hprobed.insertItem (s.hash_table k).size (s.hash_table k).at (s.hash_table k).corrupt_info
        hunused hnew
    refine ⟨new', ?_, hprobed, ?_, hsize.trans hgrow.size, ?_, ?_⟩
    · have hsmall : ¬ new.hash_table_size / 2 ≤ new.hash_table_count - 1 := by
        rw [hgrow.size, hgrow.count]
        omega
      rw [hash_table_insert, if_neg hsmall]
      exact hinsert
    · intro p z
      rw [hcontains']
      constructor
      · rintro (⟨rfl, rfl⟩ | hp)
        · exact ⟨k, Nat.lt_succ_self k, hused, rfl, rfl⟩
        · obtain ⟨i, hi, hp⟩ := (hgrow.contains p z).mp hp
          exact ⟨i, hi.trans (Nat.lt_succ_self k), hp⟩
      · rintro ⟨i, hi, hp⟩
        by_cases hik : i = k
        · subst hik
          exact Or.inl ⟨hp.2.1.symm, hp.2.2.symm⟩
        · exact Or.inr ((hgrow.contains p z).mpr ⟨i, by omega, hp⟩)
    · rw [hcount', ← hgrow.count]
      have := hgrow.count
      simp only
      omega
    · rw [hmem, ← hgrow.mem]
      exact BitVec.sub_add_cancel _ _
  · rw [if_neg hused]
    refine ⟨new, rfl, hgrow.probed, ?_, hgrow.size, hgrow.count, hgrow.mem⟩
    intro p z
    rw [hgrow.contains]
    constructor
    · rintro ⟨i, hi, hp⟩
      exact ⟨i, hi.trans (Nat.lt_succ_self k), hp⟩
    · rintro ⟨i, hi, hp⟩
      have hik : i ≠ k := by
        rintro rfl
        exact hused hp.1
      exact ⟨i, by omega, hp⟩

/-- Growing keeps the pointers and the counters. -/
lemma Tracks.grow (h : Tracks s live) (hsize : s.hash_table_size * 2 < 2 ^ 31) (depth : ℕ) :
    ∃ s', hash_table_grow (hash_table_insert (depth + 1)) s = some s' ∧ Tracks s' live ∧
      s'.hash_table_count < s'.hash_table_size / 2 := by
  have hpos := h.probed.pos
  have hloop : ∀ k ≤ s.hash_table_size, ∃ new,
      (List.range k).foldlM (MHandle.reinsert (hash_table_insert (depth + 1)) s) { s with
        hash_table_size := s.hash_table_size * 2
        hash_table := fun _ => {} } = some new ∧ Growing s new k := by
    intro k
    induction k with
    | zero =>
      intro _
      refine ⟨_, rfl, ⟨?_, ?_, ?_⟩, ?_, rfl, rfl, rfl⟩
      · exact Nat.mul_pos hpos (by decide)
      · intro i _ j _ hused
        cases hused
      · intro i _ hused
        cases hused
      · intro p z
        constructor
        · rintro ⟨i, -, hused, -⟩
          cases hused
        · rintro ⟨i, hi, -⟩
          omega
    | succ k ih =>
      intro hk
      obtain ⟨new, hfold, hgrow⟩ := ih (by omega)
      obtain ⟨new', hstep, hgrow'⟩ := hgrow.reinsert h hk depth
      refine ⟨new', ?_, hgrow'⟩
      rw [List.range_succ, List.foldlM_append, hfold, Option.bind_eq_bind, Option.bind_some,
        List.foldlM_cons, hstep]
      rfl
  obtain ⟨s', hfold, hgrow⟩ := hloop _ (le_refl _)
  have hroom := h.room
  refine ⟨s', by rw [hash_table_grow, if_neg (by omega), hfold], ⟨hgrow.probed, ?_, h.keys, ?_, ?_,
    ?_, ?_⟩, ?_⟩
  · rw [hgrow.size]
    exact hsize
  · intro p z
    rw [hgrow.contains, ← h.contains]
    rfl
  · rw [hgrow.count, h.count]
  · rw [hgrow.count, hgrow.size]
    omega
  · rw [hgrow.mem, h.mem]
  · rw [hgrow.count, hgrow.size]
    omega

lemma Tracks.insert (h : Tracks s live) (hnew : Fresh (.insert ptr size label corrupt_info) s)
    (hsize : s.hash_table_size * 2 < 2 ^ 31 ∨ s.hash_table_count < s.hash_table_size / 2) :
    ∃ s', hash_table_insert 2 s ptr size label corrupt_info = some s' ∧
      Tracks s' ((ptr, size) :: live) := by
  have hkeys : ∀ z, (ptr, z) ∉ live := by
    intro z hz
    obtain ⟨i, hi, hused, hptr, -⟩ := (h.contains ptr z).mpr hz
    exact hnew i hi hused hptr
  obtain ⟨s₁, hs₁, h₁, hroom⟩ : ∃ s₁, (if s.hash_table_size / 2 ≤ s.hash_table_count then
      hash_table_grow (hash_table_insert 1) s else some s) = some s₁ ∧ Tracks s₁ live ∧
      s₁.hash_table_count < s₁.hash_table_size / 2 := by
    by_cases hfull : s.hash_table_size / 2 ≤ s.hash_table_count
    · rw [if_pos hfull]
      exact h.grow (by omega) 0
    · rw [if_neg hfull]
      exact ⟨s, rfl, h, by omega⟩
  have hunused := h₁.probed.exists_unused (fun p z hp => (h₁.contains p z).mp hp)
    (by rw [← h₁.count]; omega)
  obtain ⟨s', hinsert, hprobed, hcontains, hsize', hcount, hmem⟩ :=
    h₁.probed.insertItem size label corrupt_info hunused
      (fun z hz => hkeys z ((h₁.contains ptr z).mp hz))
  refine ⟨s', ?_, hprobed, hsize' ▸ h₁.small, ?_, ?_, ?_, ?_, ?_⟩
  · rw [hash_table_insert]
    by_cases hfull : s.hash_table_size / 2 ≤ s.hash_table_count
    · rw [if_pos hfull] at hs₁ ⊢
      rw [hs₁]
      exact hinsert
    · rw [if_neg hfull, Option.some.injEq] at hs₁
      rw [if_neg hfull, hs₁]
      exact hinsert
  · rw [List.map_cons, List.nodup_cons]
    refine ⟨?_, h.keys⟩
    intro hmem
    obtain ⟨⟨p, z⟩, hp, rfl⟩ := List.mem_map.mp hmem
    exact hkeys z hp
  · intro p z
    rw [hcontains, h₁.contains, List.mem_cons, Prod.mk.injEq]
  · rw [hcount, h₁.count, List.length_cons]
  · rw [hcount, hsize']
    omega
  · rw [hmem, h₁.mem, sizes, sizes, List.map_cons, List.sum_cons, BitVec.ofNat_add,
      BitVec.ofNat_toNat, BitVec.setWidth_eq, BitVec.add_comm]

lemma Tracks.remove (h : Tracks s live) (hlive : (ptr, size) ∈ live) :
    ∃ s', s.hash_table_remove ptr = some (s', size) ∧ Tracks s' (live.filter (·.1 ≠ ptr)) := by
  obtain ⟨i, hi, hused, rfl, rfl, hget⟩ :=
    h.probed.get_of_contains ((h.contains ptr size).mpr hlive)
  have hperm := perm_filter h.keys hlive
  have hlength : live.length = (live.filter (·.1 ≠ (s.hash_table i).ptr)).length + 1 :=
    hperm.length_eq
  have hsizes : sizes live = (s.hash_table i).size.toNat +
      sizes (live.filter (·.1 ≠ (s.hash_table i).ptr)) :=
    (hperm.map _).sum_eq
  refine ⟨s.removeItem i, ?_, ?_⟩
  · rw [hash_table_remove, hget]
    rfl
  · have hmark := h.probed.mark hi hused
      (show (s.removeItem i).hash_table = Function.update s.hash_table i _ from rfl) rfl
    obtain ⟨hprobed, hcontains⟩ := hmark
    refine ⟨hprobed, h.small, h.keys.sublist (List.filter_sublist.map _), ?_, ?_, ?_, ?_⟩
    · intro p z
      rw [hcontains, h.contains, List.mem_filter, decide_eq_true_eq, and_comm]
    · rw [removeItem, h.count, hlength]
      rfl
    · exact (Nat.sub_le _ _).trans h.room
    · rw [removeItem, h.mem, hsizes, BitVec.ofNat_add, BitVec.ofNat_toNat, BitVec.setWidth_eq,
        BitVec.add_comm]
      exact BitVec.add_sub_cancel _ _

lemma Tracks.live_of_get (h : Tracks s live) {steps i : ℕ}
    (hget : hash_table_get steps s ptr = some (some i)) : ∃ z, (ptr, z) ∈ live := by
  rw [get_eq, Option.map_eq_some_iff] at hget
  obtain ⟨idx, hprobe, hfound⟩ := hget
  by_cases hat : (s.hash_table idx).ptr = ptr ∧ (s.hash_table idx).used
  · have hidx := probe_lt (h.probed.hash_lt ptr) hprobe
    exact ⟨_, (h.contains ptr _).mp ⟨idx, hidx, hat.2, hat.1, rfl⟩⟩
  · rw [if_neg hat] at hfound
    cases hfound

lemma get_of_remove {z : BitVec 64} (hremove : s.hash_table_remove ptr = some (s', z)) :
    ∃ i, hash_table_get s.hash_table_size s ptr = some (some i) := by
  rw [hash_table_remove, Option.bind_eq_bind, Option.bind_eq_some_iff] at hremove
  obtain ⟨item, hget, hremove⟩ := hremove
  cases item with
  | none => cases hremove
  | some i => exact ⟨i, hget⟩

lemma free_cases {intact : Bool} (hfree : s.free ptr intact = some s') :
    ptr = 0 ∧ s' = s ∨ ptr ≠ 0 ∧ ∃ z, s.hash_table_remove ptr = some (s', z) := by
  rw [free] at hfree
  by_cases hnull : ptr = 0
  · rw [if_pos hnull, Option.some.injEq] at hfree
    exact Or.inl ⟨hnull, hfree.symm⟩
  · rw [if_neg hnull, Option.bind_eq_bind, Option.bind_eq_some_iff] at hfree
    obtain ⟨item, -, hfree⟩ := hfree
    rw [Option.bind_eq_bind, Option.bind_eq_some_iff] at hfree
    obtain ⟨i, -, hfree⟩ := hfree
    simp only at hfree
    split_ifs at hfree
    obtain ⟨⟨s₁, z⟩, hremove, rfl⟩ := Option.map_eq_some_iff.mp hfree
    exact Or.inr ⟨hnull, z, hremove⟩

lemma Tracks.step {op : Op} (h : Tracks s live) (hfresh : Fresh op s)
    (hstep : perform op s = some s') : Tracks s' (liveStep live op) := by
  have hremoved : ∀ {ptr z}, s.hash_table_remove ptr = some (s', z) →
      Tracks s' (live.filter (·.1 ≠ ptr)) := by
    intro ptr z hremove
    obtain ⟨i, hget⟩ := get_of_remove hremove
    obtain ⟨size, hlive⟩ := h.live_of_get hget
    obtain ⟨s₁, hremove₁, h₁⟩ := h.remove hlive
    rw [hremove, Option.some.injEq, Prod.mk.injEq] at hremove₁
    exact hremove₁.1 ▸ h₁
  cases op with
  | insert ptr size label corrupt_info =>
    have hroom : s.hash_table_size * 2 < 2 ^ 31 ∨ s.hash_table_count < s.hash_table_size / 2 := by
      by_contra! hfull
      rw [perform, hash_table_insert, if_pos hfull.2, hash_table_grow, if_pos hfull.1] at hstep
      cases hstep
    obtain ⟨s₁, hs₁, h₁⟩ := h.insert hfresh hroom
    obtain rfl : s' = s₁ := Option.some.inj (hstep.symm.trans hs₁)
    exact h₁
  | remove ptr =>
    obtain ⟨⟨s₁, z⟩, hremove, rfl⟩ := Option.map_eq_some_iff.mp hstep
    exact hremoved hremove
  | free ptr intact =>
    cases free_cases hstep with
    | inl hnull =>
      rw [liveStep, if_pos hnull.1, hnull.2]
      exact h
    | inr hremove =>
      obtain ⟨z, hz⟩ := hremove.2
      rw [liveStep, if_neg hremove.1]
      exact hremoved hz

lemma Tracks.run {ops : List Op} (h : Tracks s live) (hfresh : Along perform Fresh ops s)
    (hrun : Lib.run perform ops s = some s') : Tracks s' (ops.foldl liveStep live) := by
  induction ops generalizing s live with
  | nil =>
    rw [run_nil, Option.some.injEq] at hrun
    exact hrun ▸ h
  | cons op ops ih =>
    obtain ⟨hop, hrest⟩ := hfresh
    rw [run_cons, Option.bind_eq_some_iff] at hrun
    obtain ⟨s₁, hs₁, hrun⟩ := hrun
    rw [hs₁] at hrest
    exact ih (h.step hop hs₁) hrest hrun

lemma Tracks.answers_live (h : Tracks s live) (hlive : (ptr, size) ∈ live) :
    Answers s live ptr := by
  obtain ⟨i, -, -, -, hsize, hget⟩ := h.probed.get_of_contains ((h.contains ptr size).mpr hlive)
  refine ⟨_, _, hget, ?_⟩
  intro z
  constructor
  · intro hz
    have := List.inj_on_of_nodup_map h.keys hz hlive rfl
    exact ⟨i, rfl, hsize.trans (Prod.ext_iff.mp this).2.symm⟩
  · rintro ⟨j, hj, rfl⟩
    cases hj
    exact hsize ▸ hlive

lemma Tracks.exists_not_live (h : Tracks s live) : ∃ ptr, ∀ z, (ptr, z) ∉ live := by
  by_contra! hall
  have hsubset : Finset.range (2 ^ 64) ⊆ (live.map (·.1.toNat)).toFinset := by
    intro n hn
    obtain ⟨z, hz⟩ := hall (BitVec.ofNat 64 n)
    rw [List.mem_toFinset]
    refine List.mem_map.mpr ⟨_, hz, ?_⟩
    exact BitVec.toNat_ofNat n 64 ▸ Nat.mod_eq_of_lt (Finset.mem_range.mp hn)
  have hcard := (Finset.card_le_card hsubset).trans (List.toFinset_card_le _)
  rw [Finset.card_range, List.length_map, ← h.count] at hcard
  have hroom := h.room
  have hsmall := h.small
  omega

lemma Tracks.answers_iff (h : Tracks s live) :
    (∀ ptr, Answers s live ptr) ↔
      ∃ i < s.hash_table_size, (s.hash_table i).active = false := by
  constructor
  · intro hanswers
    by_contra! hactive
    obtain ⟨ptr, hptr⟩ := h.exists_not_live
    obtain ⟨steps, found, hget, -⟩ := hanswers ptr
    rw [h.probed.get_endless (fun z hz => hptr z ((h.contains ptr z).mp hz))
      (fun i hi => by simpa using hactive i hi)] at hget
    cases hget
  · intro hinactive ptr
    by_cases hlive : ∃ z, (ptr, z) ∈ live
    · obtain ⟨z, hz⟩ := hlive
      exact h.answers_live hz
    · have hnot : ∀ z, (ptr, z) ∉ live := fun z hz => hlive ⟨z, hz⟩
      refine ⟨_, none, h.probed.get_of_not_contains
        (fun z hz => hnot z ((h.contains ptr z).mp hz)) hinactive, ?_⟩
      intro z
      constructor
      · intro hz
        exact absurd hz (hnot z)
      · rintro ⟨i, hi, -⟩
        cases hi

/-- In every run the counters are right and live pointers are found, inserted and removed. -/
theorem run_tracks {ops : List Op} (hfresh : Along perform Fresh ops init)
    (hrun : Lib.run perform ops init = some s) :
    s.hash_table_count = (liveAfter ops).length ∧
      s.mem_used = BitVec.ofNat 64 (sizes (liveAfter ops)) ∧
      (∀ p ∈ liveAfter ops, Answers s (liveAfter ops) p.1 ∧ (perform (.remove p.1) s).isSome) ∧
      (∀ ptr size label corrupt_info, Fresh (.insert ptr size label corrupt_info) s →
        s.hash_table_size * 2 < 2 ^ 31 →
        (perform (.insert ptr size label corrupt_info) s).isSome) ∧
      ((∀ ptr, Answers s (liveAfter ops) ptr) ↔
        ∃ i < s.hash_table_size, (s.hash_table i).active = false) := by
  have h : Tracks s (liveAfter ops) := tracks_init.run hfresh hrun
  refine ⟨h.count, h.mem, ?_, ?_, h.answers_iff⟩
  · intro p hp
    obtain ⟨s', hs', -⟩ := h.remove hp
    exact ⟨h.answers_live hp, by rw [perform, hs']; rfl⟩
  · intro ptr size label corrupt_info hnew hsize
    obtain ⟨s', hs', -⟩ := h.insert hnew (Or.inl hsize)
    exact Option.isSome_of_eq_some hs'

end Runs

section Examples

def collision : List Op :=
  [.insert 1000 8 "a" false, .insert 2000 16 "b" true, .remove 1000]

theorem run_tracks_collision : ∃ s, Lib.run perform collision init = some s ∧
    s.mem_used = 16 ∧ Answers s (liveAfter collision) 2000 ∧
      ∀ ptr, Answers s (liveAfter collision) ptr := by
  have hrun := (Option.some_get
    (by decide +kernel : (Lib.run perform collision init).isSome = true)).symm
  have htracks := run_tracks (by decide +kernel) hrun
  refine ⟨_, hrun, htracks.2.1, (htracks.2.2.1 (2000, 16) (by decide)).1, htracks.2.2.2.2.mpr ?_⟩
  exact ⟨2, by decide +kernel, by decide +kernel⟩

def round (i : ℕ) : List Op :=
  [.insert (BitVec.ofNat 64 (1000 + i)) 1 "" false, .remove (BitVec.ofNat 64 (1000 + i))]

def rounds : List Op := (List.range' 0 1000).flatMap round

def afterRounds (k : ℕ) : MHandle :=
  { hash_table := fun i =>
      if i < k then ⟨BitVec.ofNat 64 (1000 + i), 1, "", true, true, false⟩ else {} }

def insideRound (k : ℕ) : MHandle :=
  { hash_table := Function.update (afterRounds k).hash_table k
      ⟨BitVec.ofNat 64 (1000 + k), 1, "", false, true, false⟩
    mem_used := 1
    hash_table_count := 1 }

lemma afterRounds_succ (k : ℕ) : (afterRounds (k + 1)).hash_table =
    Function.update (afterRounds k).hash_table k
      ⟨BitVec.ofNat 64 (1000 + k), 1, "", true, true, false⟩ := by
  funext i
  by_cases hi : i = k
  · subst hi
    rw [Function.update_self]
    exact if_pos (Nat.lt_succ_self i)
  · rw [Function.update_of_ne hi]
    simp only [afterRounds]
    by_cases hlt : i < k
    · rw [if_pos hlt, if_pos (by omega)]
    · rw [if_neg hlt, if_neg (by omega)]

lemma perform_round {k : ℕ} (hk : k < 1000) :
    perform (.insert (BitVec.ofNat 64 (1000 + k)) 1 "" false) (afterRounds k) =
        some (insideRound k) ∧
      perform (.remove (BitVec.ofNat 64 (1000 + k))) (insideRound k) =
        some (afterRounds (k + 1)) := by
  have hhash : (afterRounds k).hash (BitVec.ofNat 64 (1000 + k)) = k := by
    rw [hash, BitVec.toNat_ofNat]
    simp only [afterRounds, MHANDLE_HASH_TABLE_SIZE]
    omega
  have hunused : (afterRounds k).hash_table k = {} := if_neg (lt_irrefl k)
  have hprobe : probe (fun i => !((afterRounds k).hash_table i).used) 1000 1000 k = some k := by
    have hmod : (k + 0) % 1000 = k := Nat.mod_eq_of_lt hk
    have hfirst : probe (fun i => !((afterRounds k).hash_table i).used) 1000 1000 k =
        some ((k + 0) % 1000) := by
      apply probe_eq_of_first hk (by decide)
      · rw [hmod]
        simp [hunused, mhandle_item_t.used]
      · intro e he
        exact absurd he (Nat.not_lt_zero e)
    rwa [hmod] at hfirst
  have hroom : ¬ (afterRounds k).hash_table_size / 2 ≤ (afterRounds k).hash_table_count :=
    show ¬ 1000 / 2 ≤ 0 by decide
  have hitem : (insideRound k).hash_table k =
      ⟨BitVec.ofNat 64 (1000 + k), 1, "", false, true, false⟩ := Function.update_self ..
  have hget : hash_table_get 1000 (insideRound k) (BitVec.ofNat 64 (1000 + k)) =
      some (some k) := by
    have hmod : (k + 0) % 1000 = k := Nat.mod_eq_of_lt hk
    have hstop : getStop (insideRound k) (BitVec.ofNat 64 (1000 + k)) ((k + 0) % 1000) = true := by
      rw [hmod, getStop, hitem]
      simp [mhandle_item_t.used]
    have hfirst := probe_eq_of_first hk (show 0 < 1000 by decide) hstop
      (fun e he => absurd he (Nat.not_lt_zero e))
    have hinside : (insideRound k).hash (BitVec.ofNat 64 (1000 + k)) = k := hhash
    rw [get_eq, hinside]
    exact (congrArg (Option.map _) (hfirst.trans (congrArg some hmod))).trans
      (congrArg some (if_pos ⟨by rw [hitem], by rw [hitem]; rfl⟩))
  constructor
  · rw [perform, hash_table_insert, if_neg hroom]
    show (afterRounds k).insertItem _ 1 "" false = _
    rw [insertItem, hhash]
    exact (congrArg (Option.bind · _) hprobe).trans rfl
  · rw [perform, hash_table_remove, show (insideRound k).hash_table_size = 1000 from rfl, hget]
    refine congrArg some ?_
    have htable : Function.update (insideRound k).hash_table k
        ⟨BitVec.ofNat 64 (1000 + k), 1, "", true, true, false⟩ =
          (afterRounds (k + 1)).hash_table := by
      rw [afterRounds_succ, insideRound, Function.update_idem]
    have hmem : (insideRound k).mem_used - 1 = 0 := show (1 : BitVec 64) - 1 = 0 by decide
    rw [removeItem, hitem]
    show MHandle.mk _ _ _ _ = MHandle.mk _ _ _ _
    rw [MHandle.mk.injEq]
    exact ⟨hmem, htable, rfl, rfl⟩

lemma run_rounds (n k : ℕ) (hk : k + n = 1000) :
    Along perform Fresh ((List.range' k n).flatMap round) (afterRounds k) ∧
      Lib.run perform ((List.range' k n).flatMap round) (afterRounds k) = some (afterRounds 1000) ∧
      ((List.range' k n).flatMap round).foldl liveStep [] = [] := by
  induction n generalizing k with
  | zero =>
    obtain rfl : k = 1000 := by omega
    exact ⟨trivial, rfl, rfl⟩
  | succ n ih =>
    obtain ⟨hfresh, hrun, hlive⟩ := ih (k + 1) (by omega)
    obtain ⟨hinsert, hremove⟩ := perform_round (show k < 1000 by omega)
    rw [List.range'_succ, List.flatMap_cons, round, List.cons_append, List.cons_append,
      List.nil_append]
    refine ⟨?_, ?_, ?_⟩
    · have hnew : Fresh (.insert (BitVec.ofNat 64 (1000 + k)) 1 "" false) (afterRounds k) := by
        intro i _ hused
        simp only [afterRounds, mhandle_item_t.used] at hused
        split_ifs at hused
        · cases hused
        · cases hused
      rw [Along, hinsert, Option.elim_some, Along, hremove]
      exact ⟨hnew, trivial, hfresh⟩
    · rw [run_cons, hinsert, Option.bind_some, run_cons, hremove]
      exact hrun
    · rw [List.foldl_cons, List.foldl_cons]
      have hempty : liveStep (liveStep [] (.insert (BitVec.ofNat 64 (1000 + k)) 1 "" false))
          (.remove (BitVec.ofNat 64 (1000 + k))) = [] := by
        simp [liveStep]
      rw [hempty]
      exact hlive

/-- After a thousand pointers are allocated and freed, looking up another one does not end. -/
theorem lookup_after_rounds : ∃ s, Along perform Fresh rounds init ∧
    Lib.run perform rounds init = some s ∧ liveAfter rounds = [] ∧
      ∀ steps, hash_table_get steps s 5000 = none := by
  have hinit : init = afterRounds 0 := rfl
  obtain ⟨hfresh, hrun, hlive⟩ := run_rounds 1000 0 rfl
  have h : Tracks (afterRounds 1000) (liveAfter rounds) := tracks_init.run (hinit ▸ hfresh) hrun
  refine ⟨afterRounds 1000, hfresh, hrun, hlive, ?_⟩
  apply h.probed.get_endless
  · intro z hz
    rw [h.contains, show liveAfter rounds = [] from hlive] at hz
    cases hz
  · intro i hi
    have hused : (afterRounds 1000).hash_table i =
      ⟨BitVec.ofNat 64 (1000 + i), 1, "", true, true, false⟩ := if_pos hi
    rw [hused]

end Examples

end OISA.Util.MHandle
