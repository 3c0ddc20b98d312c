import Mathlib.Tactic

/-!
# The order of the last use

As a list whose front is the item used last, and as ages of the lines of a set.
-/

/-!
## Lists in the order of the last use

The items of a list are moved to its front when they are used, so the list is in the order of the
last uses.
-/

namespace OISA.Lib.Recency

variable {α : Type} [DecidableEq α]

def lastUse (log : List α) (a : α) : ℕ :=
  match log with
  | [] => 0
  | b :: log => if a = b then log.length + 1 else lastUse log a

section LastUse

variable {log : List α} {a b : α}

lemma lastUse_cons_self (log : List α) (a : α) : lastUse (a :: log) a = log.length + 1 := if_pos rfl

lemma lastUse_cons_of_ne (log : List α) (h : a ≠ b) : lastUse (b :: log) a = lastUse log a :=
  if_neg h

lemma lastUse_le (log : List α) (a : α) : lastUse log a ≤ log.length := by
  induction log with
  | nil => exact le_rfl
  | cons b log ih =>
    by_cases h : a = b
    · subst h
      rw [lastUse_cons_self, List.length_cons]
    · rw [lastUse_cons_of_ne log h, List.length_cons]
      exact ih.trans (Nat.le_succ _)

end LastUse

section Order

variable {β : Type} {R : β → β → Prop} {stamp stamp' : β → ℕ} {l : List β} {a b : β}

def Older (R : β → β → Prop) (stamp : β → ℕ) (a b : β) : Prop :=
  stamp b < stamp a ∨ stamp a = 0 ∧ stamp b = 0 ∧ R a b

def Recent (R : β → β → Prop) (stamp : β → ℕ) (l : List β) : Prop := l.Pairwise (Older R stamp)

lemma recent_of_unused (h : l.Pairwise R) (hzero : ∀ a, stamp a = 0) : Recent R stamp l :=
  h.imp fun {a b} hR => .inr ⟨hzero a, hzero b, hR⟩

lemma Recent.congr (h : Recent R stamp l) (heq : ∀ a ∈ l, stamp' a = stamp a) :
    Recent R stamp' l := by
  apply List.Pairwise.imp_of_mem _ h
  intro a b ha hb hor
  unfold Older
  rw [heq a ha, heq b hb]
  exact hor

lemma Recent.touch [DecidableEq β] (h : Recent R stamp l) (hnodup : l.Nodup)
    (hother : ∀ b ∈ l, b ≠ a → stamp' b = stamp b)
    (hnew : ∀ b ∈ l, b ≠ a → stamp b < stamp' a) : Recent R stamp' (a :: l.erase a) := by
  have hrest : ∀ b ∈ l.erase a, b ∈ l ∧ b ≠ a := by
    intro b hb
    rw [hnodup.mem_erase_iff] at hb
    exact hb.symm
  apply List.Pairwise.cons
  · intro b hb
    left
    rw [hother b (hrest b hb).1 (hrest b hb).2]
    exact hnew b (hrest b hb).1 (hrest b hb).2
  · have herase : Recent R stamp (l.erase a) := h.sublist List.erase_sublist
    exact herase.congr fun b hb => hother b (hrest b hb).1 (hrest b hb).2

lemma Recent.older_getLast (h : Recent R stamp l) (hlast : l.getLast? = some b) (ha : a ∈ l)
    (hne : a ≠ b) : Older R stamp a b := by
  obtain ⟨front, rfl⟩ := List.getLast?_eq_some_iff.mp hlast
  obtain hfront | hb := List.mem_append.mp ha
  · exact (List.pairwise_append.mp h).2.2 a hfront b (List.mem_singleton_self b)
  · exact absurd (List.mem_singleton.mp hb) hne

end Order

end OISA.Lib.Recency

/-!
## Sets of lines replaced in order of their last use

The ages of the `n` lines of a set are the numbers below `n`, each once, and the youngest line has
age `n - 1`.
-/

namespace OISA.Lib.Lru

section Ages

variable {n : ℕ} {age : ℕ → ℤ}

structure Ages (n : ℕ) (age : ℕ → ℤ) : Prop where
  nonneg : ∀ w < n, 0 ≤ age w
  lt : ∀ w < n, age w < n
  inj : ∀ v < n, ∀ w < n, age v = age w → v = w

def touch (n : ℕ) (age : ℕ → ℤ) (k w : ℕ) : ℤ :=
  if w = k then n - 1 else if age k < age w then age w - 1 else age w

def rotate (n : ℕ) (age : ℕ → ℤ) (w : ℕ) : ℤ :=
  if age w - 1 < 0 then n - 1 else age w - 1

lemma ages_initial (n : ℕ) : Ages n fun w => (w : ℤ) where
  nonneg := by intro w _; exact Int.natCast_nonneg w
  lt := by intro w hw; exact_mod_cast hw
  inj := by intro v _ w _ h; exact_mod_cast h

lemma Ages.congr {age' : ℕ → ℤ} (h : Ages n age) (heq : ∀ w < n, age' w = age w) :
    Ages n age' where
  nonneg := by intro w hw; rw [heq w hw]; exact h.nonneg w hw
  lt := by intro w hw; rw [heq w hw]; exact h.lt w hw
  inj := by
    intro v hv w hw hvw
    rw [heq v hv, heq w hw] at hvw
    exact h.inj v hv w hw hvw

/-- The ages are a permutation of the numbers below `n`. -/
theorem Ages.perm (h : Ages n age) :
    ((List.range n).map age).Perm ((List.range n).map fun i : ℕ => (i : ℤ)) := by
  have hnodup : ((List.range n).map age).Nodup := by
    apply List.Nodup.map_on _ List.nodup_range
    intro v hv w hw hvw
    exact h.inj v (List.mem_range.mp hv) w (List.mem_range.mp hw) hvw
  have hsub : (List.range n).map age ⊆ (List.range n).map fun i : ℕ => (i : ℤ) := by
    intro a ha
    obtain ⟨w, hw, rfl⟩ := List.mem_map.mp ha
    have hlt := h.lt w (List.mem_range.mp hw)
    have hnonneg := h.nonneg w (List.mem_range.mp hw)
    apply List.mem_map.mpr
    exact ⟨(age w).toNat, List.mem_range.mpr (by omega), by omega⟩
  apply (hnodup.subperm hsub).perm_of_length_le
  simp

lemma Ages.exists_oldest (h : Ages n age) (hn : 0 < n) : ∃ k < n, age k = 0 := by
  have hmem : (0 : ℤ) ∈ (List.range n).map age := by
    rw [h.perm.mem_iff]
    exact List.mem_map.mpr ⟨0, List.mem_range.mpr hn, rfl⟩
  obtain ⟨k, hk, hage⟩ := List.mem_map.mp hmem
  exact ⟨k, List.mem_range.mp hk, hage⟩

lemma Ages.touch {k : ℕ} (h : Ages n age) (hk : k < n) : Ages n (touch n age k) where
  nonneg := by
    intro w hw
    have hw0 := h.nonneg w hw
    have hk0 := h.nonneg k hk
    unfold Lru.touch
    split_ifs <;> omega
  lt := by
    intro w hw
    have hwn := h.lt w hw
    unfold Lru.touch
    split_ifs <;> omega
  inj := by
    intro v hv w hw hvw
    have hvn := h.lt v hv
    have hwn := h.lt w hw
    have hkn := h.lt k hk
    have hvk : v ≠ k → age v ≠ age k := fun hne heq => hne (h.inj v hv k hk heq)
    have hwk : w ≠ k → age w ≠ age k := fun hne heq => hne (h.inj w hw k hk heq)
    unfold Lru.touch at hvw
    by_cases hv' : v = k
    · by_cases hw' : w = k
      · rw [hv', hw']
      · have hw0 := hwk hw'
        rw [if_pos hv', if_neg hw'] at hvw
        split_ifs at hvw <;> omega
    · have hv0 := hvk hv'
      by_cases hw' : w = k
      · rw [if_neg hv', if_pos hw'] at hvw
        split_ifs at hvw <;> omega
      · have hw0 := hwk hw'
        rw [if_neg hv', if_neg hw'] at hvw
        apply h.inj v hv w hw
        split_ifs at hvw <;> omega

lemma Ages.rotate_eq_touch {k w : ℕ} (h : Ages n age) (hk : k < n) (hage : age k = 0)
    (hw : w < n) : rotate n age w = Lru.touch n age k w := by
  have hw0 := h.nonneg w hw
  unfold Lru.rotate Lru.touch
  by_cases hwk : w = k
  · rw [if_pos hwk, hwk, hage, if_pos (by omega)]
  · have hpos : age w ≠ 0 := fun h0 => hwk (h.inj w hw k hk (h0.trans hage.symm))
    rw [if_neg hwk, hage, if_neg (by omega), if_pos (by omega)]

lemma Ages.rotate (h : Ages n age) (hn : 0 < n) : Ages n (rotate n age) := by
  obtain ⟨k, hk, hage⟩ := h.exists_oldest hn
  apply (h.touch hk).congr
  intro w hw
  exact h.rotate_eq_touch hk hage hw

lemma lt_of_touch_lt {k v w : ℕ} (hv : v ≠ k) (hw : w ≠ k)
    (hlt : touch n age k w < touch n age k v) : age w < age v := by
  unfold touch at hlt
  rw [if_neg hv, if_neg hw] at hlt
  split_ifs at hlt <;> omega

def younger (n : ℕ) (age : ℕ → ℤ) (w : ℕ) : Finset ℕ :=
  (Finset.range n).filter fun v => age w < age v

lemma Ages.card_younger {w : ℕ} (h : Ages n age) (hw : w < n) :
    ((younger n age w).card : ℤ) = n - 1 - age w := by
  have hw0 := h.nonneg w hw
  have hwn := h.lt w hw
  have himage : (younger n age w).image age = Finset.Ioo (age w) n := by
    ext a
    rw [Finset.mem_image, Finset.mem_Ioo]
    constructor
    · rintro ⟨v, hv, rfl⟩
      have hv' := Finset.mem_filter.mp hv
      exact ⟨hv'.2, h.lt v (Finset.mem_range.mp hv'.1)⟩
    · intro ha
      have hmem : a ∈ (List.range n).map age := by
        rw [h.perm.mem_iff]
        exact List.mem_map.mpr ⟨a.toNat, List.mem_range.mpr (by omega), by omega⟩
      obtain ⟨v, hv, rfl⟩ := List.mem_map.mp hmem
      exact ⟨v, Finset.mem_filter.mpr
        ⟨Finset.mem_range.mpr (List.mem_range.mp hv), ha.1⟩, rfl⟩
  have hcard : (younger n age w).card = (Finset.Ioo (age w) (n : ℤ)).card := by
    rw [← himage, Finset.card_image_of_injOn]
    intro u hu v hv huv
    have hu' := (Finset.mem_filter.mp hu).1
    have hv' := (Finset.mem_filter.mp hv).1
    exact h.inj u (Finset.mem_range.mp hu') v (Finset.mem_range.mp hv') huv
  rw [hcard, Int.card_Ioo]
  omega

end Ages

structure Line (K V : Type) where
  key : K
  value : V
  age : ℤ

section Lines

variable {K V : Type} [DecidableEq K] {n : ℕ} {s : ℕ → Line K V}

/-- The first way with the key. -/
def find (n : ℕ) (s : ℕ → Line K V) (key : K) : Option ℕ :=
  (List.range n).find? fun w => (s w).key = key

lemma find_eq_some_iff {key : K} {w : ℕ} :
    find n s key = some w ↔ w < n ∧ (s w).key = key ∧ ∀ v < w, (s v).key ≠ key := by
  unfold find
  rw [List.find?_range_eq_some]
  simp only [decide_eq_true_eq, List.mem_range, Bool.not_eq_true', decide_eq_false_iff_not]
  tauto

lemma find_eq_none_iff {key : K} : find n s key = none ↔ ∀ w < n, (s w).key ≠ key := by
  unfold find
  simp

lemma find_congr {s' : ℕ → Line K V} (heq : ∀ w < n, (s' w).key = (s w).key) (key : K) :
    find n s' key = find n s key := by
  cases hf : find n s key with
  | none =>
    rw [find_eq_none_iff] at hf ⊢
    intro w hw
    rw [heq w hw]
    exact hf w hw
  | some v =>
    rw [find_eq_some_iff] at hf ⊢
    obtain ⟨hv, hkey, hfirst⟩ := hf
    refine ⟨hv, (heq v hv).trans hkey, ?_⟩
    intro u hu
    rw [heq u (hu.trans hv)]
    exact hfirst u hu

def use (n : ℕ) (s : ℕ → Line K V) (k : ℕ) (key : K) (value : V) (w : ℕ) : Line K V where
  key := if w = k then key else (s w).key
  value := if w = k then value else (s w).value
  age := touch n (fun v => (s v).age) k w

def Trained (n : ℕ) (s : ℕ → Line K V) (key : K) (value : V) (s' : ℕ → Line K V) : Prop :=
  ∃ k < n, (∀ w < n, s' w = use n s k key value w) ∧
    (find n s key = some k ∨ find n s key = none ∧ (s k).age = 0)

lemma Trained.ages {s' : ℕ → Line K V} {key : K} {value : V} (h : Trained n s key value s')
    (hages : Ages n fun w => (s w).age) : Ages n fun w => (s' w).age := by
  obtain ⟨k, hk, huse, _⟩ := h
  apply (hages.touch hk).congr
  intro w hw
  rw [huse w hw]
  rfl

def Distinct (unused : K) (n : ℕ) (s : ℕ → Line K V) : Prop :=
  ∀ v < n, ∀ w < n, (s v).key = (s w).key → (s v).key ≠ unused → v = w

lemma Trained.distinct {s' : ℕ → Line K V} {unused key : K} {value : V}
    (h : Trained n s key value s') (hdist : Distinct unused n s) : Distinct unused n s' := by
  obtain ⟨k, hk, huse, hfind⟩ := h
  -- the other way with the key would have been found
  have hother : ∀ w < n, w ≠ k → (s w).key = key → key ≠ unused → False := by
    intro w hw hwk hkey hused
    cases hfind with
    | inl hf =>
      have hkk := (find_eq_some_iff.mp hf).2.1
      exact hwk (hdist w hw k hk (hkey.trans hkk.symm) (by rw [hkey]; exact hused))
    | inr hf => exact find_eq_none_iff.mp hf.1 w hw hkey
  intro v hv w hw hkey hused
  rw [huse v hv] at hkey hused
  rw [huse w hw] at hkey
  simp only [use] at hkey hused
  by_cases hvk : v = k
  · by_cases hwk : w = k
    · rw [hvk, hwk]
    · rw [if_pos hvk, if_neg hwk] at hkey
      rw [if_pos hvk] at hused
      exact (hother w hw hwk hkey.symm hused).elim
  · rw [if_neg hvk] at hkey hused
    by_cases hwk : w = k
    · rw [if_pos hwk] at hkey
      rw [hkey] at hused
      exact (hother v hv hvk hkey hused).elim
    · rw [if_neg hwk] at hkey
      exact hdist v hv w hw hkey hused

/-- The key is in the set with the value, and only keys of `D` are younger, each in the way where
it is found. -/
structure Holds (n : ℕ) (s : ℕ → Line K V) (key : K) (value : V) (D : Finset K) (w : ℕ) :
    Prop where
  found : find n s key = some w
  value_eq : (s w).value = value
  younger_mem : ∀ v < n, (s w).age < (s v).age → (s v).key ∈ D
  younger_found : ∀ v < n, (s w).age < (s v).age → find n s (s v).key = some v

lemma Trained.find_self {s' : ℕ → Line K V} {key : K} {value : V} {k : ℕ} (hk : k < n)
    (huse : ∀ w < n, s' w = use n s k key value w)
    (hfind : find n s key = some k ∨ find n s key = none ∧ (s k).age = 0) :
    find n s' key = some k := by
  rw [find_eq_some_iff]
  refine ⟨hk, by rw [huse k hk]; exact if_pos rfl, ?_⟩
  intro v hv
  rw [huse v (hv.trans hk)]
  simp only [use]
  rw [if_neg hv.ne]
  cases hfind with
  | inl hf => exact (find_eq_some_iff.mp hf).2.2 v hv
  | inr hf => exact find_eq_none_iff.mp hf.1 v (hv.trans hk)

lemma Trained.find_other {s' : ℕ → Line K V} {key other : K} {value : V} {k v : ℕ}
    (huse : ∀ w < n, s' w = use n s k key value w)
    (hother : other ≠ key) (hf : find n s other = some v) (hvk : v ≠ k) :
    find n s' other = some v := by
  rw [find_eq_some_iff] at hf ⊢
  obtain ⟨hv, hkey, hfirst⟩ := hf
  refine ⟨hv, ?_, ?_⟩
  · rw [huse v hv]
    simp only [use]
    rw [if_neg hvk]
    exact hkey
  · intro u hu
    rw [huse u (hu.trans hv)]
    simp only [use]
    split_ifs
    · exact hother.symm
    · exact hfirst u hu

lemma Holds.congr {s' : ℕ → Line K V} {key : K} {value : V} {D : Finset K} {w : ℕ}
    (h : Holds n s key value D w) (heq : ∀ v < n, s' v = s v) : Holds n s' key value D w := by
  have hw := (find_eq_some_iff.mp h.found).1
  have hfind : ∀ other, find n s' other = find n s other :=
    find_congr fun v hv => congrArg Line.key (heq v hv)
  refine ⟨(hfind key).trans h.found, ?_, ?_, ?_⟩
  · rw [heq w hw]
    exact h.value_eq
  · intro v hv hlt
    rw [heq v hv] at hlt ⊢
    rw [heq w hw] at hlt
    exact h.younger_mem v hv hlt
  · intro v hv hlt
    rw [heq v hv] at hlt ⊢
    rw [heq w hw] at hlt
    exact (hfind _).trans (h.younger_found v hv hlt)

/-- A key that was just trained is in the set, in the youngest way. -/
theorem Trained.holds_self {s' : ℕ → Line K V} {key : K} {value : V}
    (h : Trained n s key value s') (hages : Ages n fun w => (s w).age) :
    ∃ w, Holds n s' key value ∅ w := by
  have hages' := h.ages hages
  obtain ⟨k, hk, huse, hfind⟩ := h
  have hage : (s' k).age = n - 1 := by
    rw [huse k hk]
    simp [use, touch]
  have hyoungest : ∀ v < n, ¬ (s' k).age < (s' v).age := by
    intro v hv
    have hlt := hages'.lt v hv
    rw [hage]
    omega
  refine ⟨k, Trained.find_self hk huse hfind, ?_, ?_, ?_⟩
  · rw [huse k hk]
    exact if_pos rfl
  · intro v hv hlt
    exact absurd hlt (hyoungest v hv)
  · intro v hv hlt
    exact absurd hlt (hyoungest v hv)

lemma Holds.age_pos {key other : K} {value : V} {D : Finset K} {w : ℕ}
    (h : Holds n s key value D w) (hages : Ages n fun v => (s v).age)
    (hmiss : find n s other = none) (hcard : (insert other D).card < n) : 0 < (s w).age := by
  have hw := (find_eq_some_iff.mp h.found).1
  have hmaps : ∀ v ∈ younger n (fun v => (s v).age) w, (s v).key ∈ D.erase other := by
    intro v hv
    have hv' := Finset.mem_filter.mp hv
    have hvn := Finset.mem_range.mp hv'.1
    exact Finset.mem_erase.mpr
      ⟨find_eq_none_iff.mp hmiss v hvn, h.younger_mem v hvn hv'.2⟩
  have hinj : Set.InjOn (fun v => (s v).key) (younger n (fun v => (s v).age) w) := by
    intro u hu v hv huv
    have hu' := Finset.mem_filter.mp hu
    have hv' := Finset.mem_filter.mp hv
    have hfu := h.younger_found u (Finset.mem_range.mp hu'.1) hu'.2
    have hfv := h.younger_found v (Finset.mem_range.mp hv'.1) hv'.2
    dsimp only at huv
    rw [huv, hfv] at hfu
    exact (Option.some.inj hfu).symm
  have hle := Finset.card_le_card_of_injOn _ hmaps hinj
  have hyounger := hages.card_younger hw
  have hinsert : (insert other D).card = (D.erase other).card + 1 := by
    have hsame : insert other D = insert other (D.erase other) := by
      ext c
      rw [Finset.mem_insert, Finset.mem_insert, Finset.mem_erase]
      tauto
    rw [hsame, Finset.card_insert_of_notMem (Finset.notMem_erase other D)]
  omega

/-- A key stays in the set when another one is trained, as long as there are fewer others than
ways. -/
theorem Trained.holds_other {s' : ℕ → Line K V} {key other : K} {value new : V} {D : Finset K}
    {w : ℕ} (h : Trained n s other new s') (hages : Ages n fun v => (s v).age)
    (hne : key ≠ other) (hholds : Holds n s key value D w) (hcard : (insert other D).card < n) :
    Holds n s' key value (insert other D) w := by
  obtain ⟨k, hk, huse, hfind⟩ := h
  have hw := find_eq_some_iff.mp hholds.found
  have hwk : w ≠ k := by
    intro hwk
    cases hfind with
    | inl hf =>
      have hkey := (find_eq_some_iff.mp hf).2.1
      rw [← hwk] at hkey
      exact hne (hw.2.1.symm.trans hkey)
    | inr hf =>
      have hpos := hholds.age_pos hages hf.1 hcard
      rw [hwk, hf.2] at hpos
      exact absurd hpos (lt_irrefl 0)
  have hold : ∀ v < n, v ≠ k → (s' w).age < (s' v).age → (s w).age < (s v).age := by
    intro v hv hvk hlt
    rw [huse v hv, huse w hw.1] at hlt
    have hle : touch n (fun u => (s u).age) k w < touch n (fun u => (s u).age) k v := hlt
    exact lt_of_touch_lt hvk hwk hle
  have hkeys : ∀ v < n, v ≠ k → (s' v).key = (s v).key := by
    intro v hv hvk
    rw [huse v hv]
    exact if_neg hvk
  have hkey : (s' k).key = other := by
    rw [huse k hk]
    exact if_pos rfl
  refine ⟨Trained.find_other huse hne hholds.found hwk, ?_, ?_, ?_⟩
  · rw [huse w hw.1]
    simp only [use]
    rw [if_neg hwk]
    exact hholds.value_eq
  · intro v hv hlt
    by_cases hvk : v = k
    · rw [hvk, hkey]
      exact Finset.mem_insert_self other D
    · rw [hkeys v hv hvk]
      exact Finset.mem_insert_of_mem (hholds.younger_mem v hv (hold v hv hvk hlt))
  · intro v hv hlt
    by_cases hvk : v = k
    · rw [hvk, hkey]
      exact Trained.find_self hk huse hfind
    · have hfound := hholds.younger_found v hv (hold v hv hvk hlt)
      rw [hkeys v hv hvk]
      apply Trained.find_other huse _ hfound hvk
      intro heq
      -- the key of `v` is the trained one, so that the line found for it is `k`
      rw [heq] at hfound
      cases hfind with
      | inl hf => exact hvk (Option.some.inj (hfound.symm.trans hf))
      | inr hf => exact find_eq_none_iff.mp hf.1 v hv heq

end Lines

/-! ## Loops over a segment of an array -/

section Segments

variable {E : Type}

lemma mul_add_inj {n set set' way way' : ℕ} (hway : way < n) (hway' : way' < n)
    (h : set * n + way = set' * n + way') : set = set' ∧ way = way' := by
  have hdiv := congrArg (· / n) h
  have hpos : 0 < n := by omega
  simp only [Nat.mul_comm _ n, Nat.mul_add_div hpos, Nat.div_eq_of_lt hway,
    Nat.div_eq_of_lt hway', Nat.add_zero] at hdiv
  subst hdiv
  exact ⟨rfl, by omega⟩

lemma mul_add_mem_segment {n set set' way : ℕ} (hway : way < n) :
    (set * n ≤ set' * n + way ∧ set' * n + way < set * n + n) ↔ set' = set := by
  constructor
  · intro h
    have hsame : set' * n + way = set * n + (set' * n + way - set * n) := by omega
    exact (mul_add_inj hway (by omega) hsame).1
  · intro h
    rw [h]
    omega

lemma foldl_segment (f : E → E) (base n : ℕ) (a : ℕ → E) (i : ℕ) :
    (List.range n).foldl (fun a w => Function.update a (base + w) (f (a (base + w)))) a i =
      if base ≤ i ∧ i < base + n then f (a i) else a i := by
  induction n with
  | zero =>
    have hout : ¬ (base ≤ i ∧ i < base + 0) := by omega
    rw [if_neg hout]
    rfl
  | succ n ih =>
    rw [List.range_succ, List.foldl_append, List.foldl_cons, List.foldl_nil]
    by_cases hi : i = base + n
    · have hbefore : ¬ (base ≤ i ∧ i < base + n) := by omega
      have hafter : base ≤ i ∧ i < base + (n + 1) := by omega
      rw [if_neg hbefore] at ih
      rw [if_pos hafter, hi, Function.update_self, ← hi, ih]
    · rw [Function.update_of_ne hi, ih]
      by_cases hin : base ≤ i ∧ i < base + n
      · rw [if_pos hin, if_pos (by omega)]
      · rw [if_neg hin, if_neg (by omega)]

end Segments

end OISA.Lib.Lru
