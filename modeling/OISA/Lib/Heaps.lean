import Mathlib.Tactic

/-!
# Binary heaps in arrays

An array is a function of the index, and only its first `n` elements count.
-/

namespace OISA.Lib

variable {α κ : Type}

def swapAt (f : ℕ → α) (i j : ℕ) : ℕ → α := Function.update (Function.update f i (f j)) j (f i)

def parent (i : ℕ) : ℕ := (i - 1) / 2

section Swaps

lemma swapAt_eq (f : ℕ → α) (i j : ℕ) : swapAt f i j = f ∘ Equiv.swap i j := by
  funext k
  rw [Function.comp_apply, swapAt, Equiv.swap_apply_def]
  by_cases hj : k = j
  · subst hj
    rw [Function.update_self]
    by_cases hi : k = i
    · rw [if_pos hi, hi]
    · rw [if_neg hi, if_pos rfl]
  · rw [Function.update_of_ne hj]
    by_cases hi : k = i
    · subst hi
      rw [Function.update_self, if_pos rfl]
    · rw [Function.update_of_ne hi, if_neg hi, if_neg hj]

lemma swapAt_left (f : ℕ → α) (i j : ℕ) : swapAt f i j i = f j := by
  rw [swapAt_eq, Function.comp_apply, Equiv.swap_apply_left]

lemma swapAt_right (f : ℕ → α) (i j : ℕ) : swapAt f i j j = f i := by
  rw [swapAt_eq, Function.comp_apply, Equiv.swap_apply_right]

lemma swapAt_of_ne (f : ℕ → α) {i j k : ℕ} (hi : k ≠ i) (hj : k ≠ j) : swapAt f i j k = f k := by
  rw [swapAt_eq, Function.comp_apply, Equiv.swap_apply_of_ne_of_ne hi hj]

lemma comp_swapAt {β : Type} (g : α → β) (f : ℕ → α) (i j : ℕ) :
    g ∘ swapAt f i j = swapAt (g ∘ f) i j := by
  rw [swapAt_eq, swapAt_eq, Function.comp_assoc]

lemma perm_swapAt (f : ℕ → α) {n i j : ℕ} (hi : i < n) (hj : j < n) :
    ((List.range n).map (swapAt f i j)).Perm ((List.range n).map f) := by
  rw [swapAt_eq, ← List.map_map]
  apply List.Perm.map
  rw [List.perm_ext_iff_of_nodup (List.nodup_range.map (Equiv.injective _)) List.nodup_range]
  intro k
  have hlt : ∀ k < n, Equiv.swap i j k < n := by
    intro k hk
    rw [Equiv.swap_apply_def]
    split_ifs
    · exact hj
    · exact hi
    · exact hk
  rw [List.mem_map, List.mem_range]
  constructor
  · rintro ⟨l, hl, rfl⟩
    exact hlt l (List.mem_range.mp hl)
  · intro hk
    exact ⟨Equiv.swap i j k, List.mem_range.mpr (hlt k hk), Equiv.swap_apply_self i j k⟩

end Swaps

section Order

variable [LinearOrder κ] {g : ℕ → κ} {n i : ℕ}

def Ordered (g : ℕ → κ) (n : ℕ) : Prop := ∀ j, 0 < j → j < n → g (parent j) ≤ g j

/-- Only the key at `i` may be below the one of its parent. -/
structure OrderedUp (g : ℕ → κ) (n i : ℕ) : Prop where
  others : ∀ j, 0 < j → j < n → j ≠ i → g (parent j) ≤ g j
  grand : 0 < i → ∀ c, 0 < c → c < n → parent c = i → g (parent i) ≤ g c

/-- Only the key at `i` may be above the ones of its children. -/
structure OrderedDown (g : ℕ → κ) (n i : ℕ) : Prop where
  others : ∀ j, 0 < j → j < n → parent j ≠ i → g (parent j) ≤ g j
  grand : 0 < i → ∀ c, 0 < c → c < n → parent c = i → g (parent i) ≤ g c

lemma parent_lt (h : 0 < i) : parent i < i := by
  unfold parent
  omega

lemma Ordered.root_le (h : Ordered g n) (hi : i < n) : g 0 ≤ g i := by
  induction i using Nat.strong_induction_on with
  | _ i ih =>
    by_cases hzero : i = 0
    · rw [hzero]
    · have hpos : 0 < i := Nat.pos_of_ne_zero hzero
      have hlt := parent_lt hpos
      exact (ih (parent i) hlt (hlt.trans hi)).trans (h i hpos hi)

lemma OrderedUp.done (h : OrderedUp g n i) (hi : i = 0 ∨ g (parent i) ≤ g i) : Ordered g n := by
  intro j hpos hj
  by_cases hji : j = i
  · cases hi with
    | inl hzero => omega
    | inr hle => rw [hji]; exact hle
  · exact h.others j hpos hj hji

lemma OrderedUp.swap (h : OrderedUp g n i) (hpos : 0 < i) (hi : i < n)
    (hlt : g i < g (parent i)) : OrderedUp (swapAt g i (parent i)) n (parent i) := by
  have hparent := parent_lt hpos
  -- Above the two nodes nothing changes, and the old parent is above them.
  have habove : 0 < parent i → g (parent (parent i)) ≤ g (parent i) := fun hp =>
    h.others (parent i) hp (hparent.trans hi) hparent.ne
  constructor
  · intro j hj hjn hji
    by_cases heq : j = i
    · rw [heq, swapAt_left, swapAt_right]
      exact hlt.le
    · rw [swapAt_of_ne g heq hji]
      by_cases hpi : parent j = i
      · rw [hpi, swapAt_left]
        exact h.grand hpos j hj hjn hpi
      · by_cases hpp : parent j = parent i
        · rw [hpp, swapAt_right]
          have := h.others j hj hjn heq
          rw [hpp] at this
          exact hlt.le.trans this
        · rw [swapAt_of_ne g hpi hpp]
          exact h.others j hj hjn heq
  · intro hp c hc hcn hparentc
    have hpp := parent_lt hp
    rw [swapAt_of_ne g (by omega) hpp.ne]
    by_cases hci : c = i
    · rw [hci, swapAt_left]
      exact habove hp
    · have hcp : c ≠ parent i := by
        have := parent_lt hc
        omega
      rw [swapAt_of_ne g hci hcp]
      have := h.others c hc hcn hci
      rw [hparentc] at this
      exact (habove hp).trans this

lemma OrderedDown.done (h : OrderedDown g n i)
    (hi : ∀ c, 0 < c → c < n → parent c = i → g i ≤ g c) : Ordered g n := by
  intro j hpos hj
  by_cases hji : parent j = i
  · rw [hji]
    exact hi j hpos hj hji
  · exact h.others j hpos hj hji

lemma OrderedDown.swap (h : OrderedDown g n i) {k : ℕ} (hk : 0 < k) (hkn : k < n)
    (hki : parent k = i) (hlt : g k < g i)
    (hleast : ∀ c, 0 < c → c < n → parent c = i → g k ≤ g c) :
    OrderedDown (swapAt g i k) n k := by
  have hik : i < k := hki ▸ parent_lt hk
  constructor
  · intro j hj hjn hjk
    have hparent := parent_lt hj
    by_cases hji : j = i
    · subst hji
      rw [swapAt_left, swapAt_of_ne g (by omega) (by omega)]
      exact h.grand hj k hk hkn hki
    · by_cases hpi : parent j = i
      · rw [hpi, swapAt_left]
        by_cases hjk' : j = k
        · rw [hjk', swapAt_right]
          exact hlt.le
        · rw [swapAt_of_ne g hji hjk']
          exact hleast j hj hjn hpi
      · have hjk' : j ≠ k := by
          rintro rfl
          exact hpi hki
        rw [swapAt_of_ne g hpi hjk, swapAt_of_ne g hji hjk']
        exact h.others j hj hjn hpi
  · intro _ c hc hcn hck
    have hparent := parent_lt hc
    rw [hki, swapAt_left, swapAt_of_ne g (by omega) (by omega), ← hck]
    exact h.others c hc hcn (by omega)

end Order

end OISA.Lib
