import Mathlib.Tactic
import Mathlib.Data.Nat.Count
import Mathlib.Algebra.BigOperators.Intervals

/-!
# Bitonic networks

A network acts on a sequence `v : ℕ → α` through exchanges of two positions, decided by a test
`swap` on their contents.
-/

namespace OISA.Lib.Bitonic

variable {α β κ δ : Type}

def compSwap (swap : α → α → Bool) (i j : ℕ) (v : ℕ → α) : ℕ → α :=
  if swap (v i) (v j) then v ∘ Equiv.swap i j else v

lemma compSwap_apply (swap : α → α → Bool) (i j : ℕ) (v : ℕ → α) (t : ℕ) :
    compSwap swap i j v t = v (if swap (v i) (v j) then Equiv.swap i j t else t) := by
  unfold compSwap
  split <;> rfl

def clean (swap : α → α → Bool) (low k : ℕ) : ℕ → (ℕ → α) → ℕ → α
  | 0, v => v
  | n + 1, v => compSwap swap (low + n) (low + n + k) (clean swap low k n v)

def mergeNet (swap : α → α → Bool) : ℕ → ℕ → (ℕ → α) → ℕ → α
  | 0, _, v => v
  | e + 1, low, v =>
    mergeNet swap e (low + 2 ^ e) (mergeNet swap e low (clean swap low (2 ^ e) (2 ^ e) v))

/-- The sorting network: the halves are sorted in the directions `up` and `down`, then
merged in direction `d`. -/
def sortNet (swap : δ → α → α → Bool) (up down : δ) : ℕ → ℕ → δ → (ℕ → α) → ℕ → α
  | 0, _, _, v => v
  | e + 1, low, d, v =>
    mergeNet (swap d) (e + 1) low
      (sortNet swap up down e (low + 2 ^ e) down (sortNet swap up down e low up v))

/-! ### Networks permute, locally -/

def PermOn (low n : ℕ) (v w : ℕ → α) : Prop :=
  ∃ σ : Equiv.Perm ℕ, (∀ t, ¬(low ≤ t ∧ t < low + n) → σ t = t) ∧ w = v ∘ σ

namespace PermOn

lemma refl (low n : ℕ) (v : ℕ → α) : PermOn low n v v :=
  ⟨Equiv.refl ℕ, fun _ _ => rfl, rfl⟩

lemma trans {low n : ℕ} {u v w : ℕ → α} (h : PermOn low n u v) (h' : PermOn low n v w) :
    PermOn low n u w := by
  obtain ⟨σ, hσ, rfl⟩ := h
  obtain ⟨τ, hτ, rfl⟩ := h'
  refine ⟨τ.trans σ, fun t ht => ?_, rfl⟩
  rw [Equiv.trans_apply, hτ t ht, hσ t ht]

lemma mono {low n : ℕ} {v w : ℕ → α} (h : PermOn low n v w) (low' n' : ℕ) (hl : low' ≤ low)
    (hn : low + n ≤ low' + n') : PermOn low' n' v w := by
  obtain ⟨σ, hσ, rfl⟩ := h
  exact ⟨σ, fun t ht => hσ t (by omega), rfl⟩

lemma frame {low n : ℕ} {v w : ℕ → α} (h : PermOn low n v w) {t : ℕ}
    (ht : ¬(low ≤ t ∧ t < low + n)) : w t = v t := by
  obtain ⟨σ, hσ, rfl⟩ := h
  rw [Function.comp_apply, hσ t ht]

lemma swap {low n i j : ℕ} (v : ℕ → α) (hi : low ≤ i ∧ i < low + n)
    (hj : low ≤ j ∧ j < low + n) : PermOn low n v (v ∘ Equiv.swap i j) := by
  refine ⟨Equiv.swap i j, fun t ht => ?_, rfl⟩
  have hti : t ≠ i := by rintro rfl; exact ht hi
  have htj : t ≠ j := by rintro rfl; exact ht hj
  exact Equiv.swap_apply_of_ne_of_ne hti htj

lemma perm_mem {low n : ℕ} {σ : Equiv.Perm ℕ}
    (hσ : ∀ t, ¬(low ≤ t ∧ t < low + n) → σ t = t) {t : ℕ} (ht : low ≤ t ∧ t < low + n) :
    low ≤ σ t ∧ σ t < low + n := by
  by_contra hout
  have hfix := hσ (σ t) hout
  rw [σ.injective hfix] at hout
  exact hout ht

lemma forall_iff {low n : ℕ} {v w : ℕ → α} (h : PermOn low n v w) (P : α → Prop) :
    (∀ t, low ≤ t → t < low + n → P (w t)) ↔ ∀ t, low ≤ t → t < low + n → P (v t) := by
  obtain ⟨σ, hσ, rfl⟩ := h
  constructor
  · intro hw t hlo hhi
    have hσ' : ∀ t, ¬(low ≤ t ∧ t < low + n) → σ.symm t = t := fun t ht => by
      rw [Equiv.symm_apply_eq, hσ t ht]
    have hmem := perm_mem hσ' ⟨hlo, hhi⟩
    simpa using hw (σ.symm t) hmem.1 hmem.2
  · intro hv t hlo hhi
    have hmem := perm_mem hσ ⟨hlo, hhi⟩
    exact hv (σ t) hmem.1 hmem.2

lemma list_perm {low n : ℕ} {v w : ℕ → α} (h : PermOn low n v w) :
    List.Perm ((List.range' low n).map w) ((List.range' low n).map v) := by
  obtain ⟨σ, hσ, rfl⟩ := h
  rw [← List.map_map]
  apply List.Perm.map
  apply (List.perm_ext_iff_of_nodup _ List.nodup_range').mpr
  · intro t
    simp only [List.mem_map, List.mem_range'_1]
    constructor
    · rintro ⟨s, hs, rfl⟩
      exact perm_mem hσ hs
    · intro ht
      have hσ' : ∀ t, ¬(low ≤ t ∧ t < low + n) → σ.symm t = t := fun t ht => by
        rw [Equiv.symm_apply_eq, hσ t ht]
      exact ⟨σ.symm t, perm_mem hσ' ht, by simp⟩
  · exact List.Nodup.map σ.injective List.nodup_range'

end PermOn

lemma compSwap_permOn (swap : α → α → Bool) {low n i j : ℕ} (v : ℕ → α)
    (hi : low ≤ i ∧ i < low + n) (hj : low ≤ j ∧ j < low + n) :
    PermOn low n v (compSwap swap i j v) := by
  unfold compSwap
  split
  · exact PermOn.swap v hi hj
  · exact PermOn.refl low n v

lemma clean_permOn (swap : α → α → Bool) (low k n : ℕ) (v : ℕ → α) (hn : n ≤ k) :
    PermOn low (k + k) v (clean swap low k n v) := by
  induction n with
  | zero => exact PermOn.refl _ _ _
  | succ n ih =>
    rw [clean]
    exact (ih (by omega)).trans (compSwap_permOn swap _ (by omega) (by omega))

lemma mergeNet_permOn (swap : α → α → Bool) (e low : ℕ) (v : ℕ → α) :
    PermOn low (2 ^ e) v (mergeNet swap e low v) := by
  induction e generalizing low v with
  | zero => exact PermOn.refl _ _ _
  | succ e ih =>
    have hp : 2 ^ (e + 1) = 2 ^ e + 2 ^ e := by ring
    rw [mergeNet, hp]
    have h1 := clean_permOn swap low (2 ^ e) (2 ^ e) v le_rfl
    have h2 := ih low (clean swap low (2 ^ e) (2 ^ e) v)
    have h3 := ih (low + 2 ^ e) (mergeNet swap e low (clean swap low (2 ^ e) (2 ^ e) v))
    have hpos := Nat.two_pow_pos e
    have h2' := h2.mono low (2 ^ e + 2 ^ e) le_rfl (by omega)
    have h3' := h3.mono low (2 ^ e + 2 ^ e) (by omega) (by omega)
    exact (h1.trans h2').trans h3'

lemma sortNet_permOn (swap : δ → α → α → Bool) (up down : δ) (e low : ℕ) (d : δ)
    (v : ℕ → α) : PermOn low (2 ^ e) v (sortNet swap up down e low d v) := by
  induction e generalizing low d v with
  | zero => exact PermOn.refl _ _ _
  | succ e ih =>
    have hp : 2 ^ (e + 1) = 2 ^ e + 2 ^ e := by ring
    have h1 := ih low up v
    have h2 := ih (low + 2 ^ e) down (sortNet swap up down e low up v)
    have h3 := mergeNet_permOn (swap d) (e + 1) low
      (sortNet swap up down e (low + 2 ^ e) down (sortNet swap up down e low up v))
    rw [hp] at h3 ⊢
    have hpos := Nat.two_pow_pos e
    have h1' := h1.mono low (2 ^ e + 2 ^ e) le_rfl (by omega)
    have h2' := h2.mono low (2 ^ e + 2 ^ e) (by omega) (by omega)
    exact (h1'.trans h2').trans h3

lemma clean_apply (swap : α → α → Bool) (low k n : ℕ) (v : ℕ → α) (hn : n ≤ k) (t : ℕ)
    (ht : t < k) :
    clean swap low k n v (low + t) =
        (if t < n ∧ swap (v (low + t)) (v (low + t + k)) then v (low + t + k)
          else v (low + t)) ∧
      clean swap low k n v (low + t + k) =
        (if t < n ∧ swap (v (low + t)) (v (low + t + k)) then v (low + t)
          else v (low + t + k)) := by
  induction n with
  | zero => simp [clean]
  | succ n ih =>
    have hold := ih (by omega)
    rw [clean, compSwap]
    by_cases htn : t = n
    · subst htn
      simp only [lt_irrefl, false_and, if_false] at hold
      rw [hold.1, hold.2]
      by_cases hs : swap (v (low + t)) (v (low + t + k)) = true
      · simp [hs, hold.1, hold.2]
      · simp [hs, hold.1, hold.2]
    · have h1 : low + t ≠ low + n := by omega
      have h2 : low + t ≠ low + n + k := by omega
      have h3 : low + t + k ≠ low + n := by omega
      have h4 : low + t + k ≠ low + n + k := by omega
      have hlt : t < n + 1 ↔ t < n := by omega
      simp only [hlt]
      split
      · rw [Function.comp_apply, Function.comp_apply, Equiv.swap_apply_of_ne_of_ne h1 h2,
          Equiv.swap_apply_of_ne_of_ne h3 h4]
        exact hold
      · exact hold

/-! ### Networks act on each segment separately -/

lemma clean_congr (swap : α → α → Bool) (low k n : ℕ) (v w : ℕ → α) (hn : n ≤ k)
    (h : ∀ t, low ≤ t → t < low + (k + k) → v t = w t) (t : ℕ) (hlo : low ≤ t)
    (hhi : t < low + (k + k)) : clean swap low k n v t = clean swap low k n w t := by
  obtain hc | hc : (∃ s, s < k ∧ t = low + s) ∨ ∃ s, s < k ∧ t = low + s + k := by
    by_cases hk : t < low + k
    · exact .inl ⟨t - low, by omega, by omega⟩
    · exact .inr ⟨t - low - k, by omega, by omega⟩
  · obtain ⟨s, hs, rfl⟩ := hc
    rw [(clean_apply swap low k n v hn s hs).1, (clean_apply swap low k n w hn s hs).1,
      h (low + s) (by omega) (by omega), h (low + s + k) (by omega) (by omega)]
  · obtain ⟨s, hs, rfl⟩ := hc
    rw [(clean_apply swap low k n v hn s hs).2, (clean_apply swap low k n w hn s hs).2,
      h (low + s) (by omega) (by omega), h (low + s + k) (by omega) (by omega)]

lemma mergeNet_congr (swap : α → α → Bool) (e low : ℕ) (v w : ℕ → α)
    (h : ∀ t, low ≤ t → t < low + 2 ^ e → v t = w t) (t : ℕ) (hlo : low ≤ t)
    (hhi : t < low + 2 ^ e) : mergeNet swap e low v t = mergeNet swap e low w t := by
  induction e generalizing low v w t with
  | zero => exact h t hlo hhi
  | succ e ih =>
    have hp : 2 ^ (e + 1) = 2 ^ e + 2 ^ e := by ring
    rw [hp] at h hhi
    have hclean := clean_congr swap low (2 ^ e) (2 ^ e) v w le_rfl h
    have hlower : ∀ t, low ≤ t → t < low + (2 ^ e + 2 ^ e) →
        mergeNet swap e low (clean swap low (2 ^ e) (2 ^ e) v) t =
          mergeNet swap e low (clean swap low (2 ^ e) (2 ^ e) w) t := by
      intro t hlo hhi
      by_cases hk : t < low + 2 ^ e
      · exact ih low _ _ (fun s hs hs' => hclean s hs (by omega)) t hlo hk
      · rw [(mergeNet_permOn swap e low _).frame (by omega),
          (mergeNet_permOn swap e low _).frame (by omega)]
        exact hclean t hlo hhi
    rw [mergeNet, mergeNet]
    by_cases hk : t < low + 2 ^ e
    · rw [(mergeNet_permOn swap e (low + 2 ^ e) _).frame (by omega),
        (mergeNet_permOn swap e (low + 2 ^ e) _).frame (by omega)]
      exact hlower t hlo hhi
    · exact ih (low + 2 ^ e) _ _ (fun s hs hs' => hlower s (by omega) (by omega)) t (by omega)
        (by omega)

/-! ### Networks commute with maps that follow their tests -/

lemma compSwap_map {swap : α → α → Bool} {swap' : β → β → Bool} {g : α → β}
    (hg : ∀ a b, g a = g b ∨ swap a b = swap' (g a) (g b)) (i j : ℕ) (v : ℕ → α) :
    g ∘ compSwap swap i j v = compSwap swap' i j (g ∘ v) := by
  unfold compSwap
  simp only [Function.comp_apply]
  rcases hg (v i) (v j) with heq | hs
  · have hfix : g ∘ v ∘ Equiv.swap i j = g ∘ v := by
      funext t
      simp only [Function.comp_apply]
      by_cases hti : t = i
      · rw [hti, Equiv.swap_apply_left, heq]
      · by_cases htj : t = j
        · rw [htj, Equiv.swap_apply_right, heq]
        · rw [Equiv.swap_apply_of_ne_of_ne hti htj]
    split <;> split <;> first | rfl | exact hfix | exact hfix.symm
  · rw [hs]
    split <;> rfl

lemma clean_map {swap : α → α → Bool} {swap' : β → β → Bool} {g : α → β}
    (hg : ∀ a b, g a = g b ∨ swap a b = swap' (g a) (g b)) (low k n : ℕ) (v : ℕ → α) :
    g ∘ clean swap low k n v = clean swap' low k n (g ∘ v) := by
  induction n with
  | zero => rfl
  | succ n ih => rw [clean, clean, compSwap_map hg, ih]

lemma mergeNet_map {swap : α → α → Bool} {swap' : β → β → Bool} {g : α → β}
    (hg : ∀ a b, g a = g b ∨ swap a b = swap' (g a) (g b)) (e low : ℕ) (v : ℕ → α) :
    g ∘ mergeNet swap e low v = mergeNet swap' e low (g ∘ v) := by
  induction e generalizing low v with
  | zero => rfl
  | succ e ih => rw [mergeNet, mergeNet, ih, ih, clean_map hg]

/-! ### Balanced words -/

/-- The number of true places among `low + c`, `low + c + 2 ^ j`, ... of the `2 ^ e` places
from `low`. -/
def classCount (w : ℕ → Bool) (low e j c : ℕ) : ℕ :=
  ∑ q ∈ Finset.range (2 ^ (e - j)), (w (low + c + q * 2 ^ j)).toNat

/-- For every power of two below `2 ^ e` the true places are spread evenly over the residue
classes. -/
def Balanced (e low : ℕ) (w : ℕ → Bool) : Prop :=
  ∀ j < e, ∀ c < 2 ^ j, ∀ c' < 2 ^ j, classCount w low e j c ≤ classCount w low e j c' + 1

def boolSwap (a b : Bool) : Bool := a && !b

lemma two_pow_sub_mul {j e : ℕ} (h : j ≤ e) : 2 ^ (e - j) * 2 ^ j = 2 ^ e := by
  rw [← pow_add, Nat.sub_add_cancel h]

lemma class_pos_lt {e j c q : ℕ} (hj : j ≤ e) (hc : c < 2 ^ j) (hq : q < 2 ^ (e - j)) :
    c + q * 2 ^ j < 2 ^ e := by
  have hstep : (q + 1) * 2 ^ j ≤ 2 ^ (e - j) * 2 ^ j := Nat.mul_le_mul_right _ hq
  rw [two_pow_sub_mul hj, Nat.add_mul, Nat.one_mul] at hstep
  omega

lemma classCount_congr {w : ℕ → Bool} {low e j c : ℕ} (w' : ℕ → Bool) (low' : ℕ) (hj : j ≤ e) (hc : c < 2 ^ j)
    (h : ∀ t < 2 ^ e, w (low + t) = w' (low' + t)) :
    classCount w low e j c = classCount w' low' e j c := by
  apply Finset.sum_congr rfl
  intro q hq
  have hpos := h _ (class_pos_lt hj hc (Finset.mem_range.mp hq))
  rw [Nat.add_assoc, hpos, Nat.add_assoc]

lemma balanced_congr {w w' : ℕ → Bool} {low low' e : ℕ}
    (h : ∀ t < 2 ^ e, w (low + t) = w' (low' + t)) :
    Balanced e low w ↔ Balanced e low' w' := by
  unfold Balanced
  refine forall₂_congr fun j hj => forall₂_congr fun c hc => forall₂_congr fun c' hc' => ?_
  rw [classCount_congr _ _ hj.le hc h, classCount_congr _ _ hj.le hc' h]

lemma classCount_const_false {w : ℕ → Bool} {low e j c : ℕ} (hj : j ≤ e) (hc : c < 2 ^ j)
    (h : ∀ t < 2 ^ e, w (low + t) = false) : classCount w low e j c = 0 := by
  rw [classCount_congr (fun _ => false) 0 hj hc h]
  simp [classCount]

lemma classCount_const_true {w : ℕ → Bool} {low e j c : ℕ} (hj : j ≤ e) (hc : c < 2 ^ j)
    (h : ∀ t < 2 ^ e, w (low + t) = true) : classCount w low e j c = 2 ^ (e - j) := by
  rw [classCount_congr (fun _ => true) 0 hj hc h]
  simp [classCount]

lemma classCount_succ (w : ℕ → Bool) (low e j c : ℕ) (hj : j ≤ e) :
    classCount w low (e + 1) j c = classCount w low e j c + classCount w (low + 2 ^ e) e j c := by
  have hp : 2 ^ (e + 1 - j) = 2 ^ (e - j) + 2 ^ (e - j) := by
    rw [Nat.succ_sub hj, pow_succ]; ring
  unfold classCount
  rw [hp, Finset.sum_range_add]
  congr 1
  apply Finset.sum_congr rfl
  intro q _
  rw [Nat.add_mul, two_pow_sub_mul hj]
  congr 2
  ring

lemma clean_bool (e low : ℕ) (w : ℕ → Bool) (t : ℕ) (ht : t < 2 ^ e) :
    clean boolSwap low (2 ^ e) (2 ^ e) w (low + t) = (w (low + t) && w (low + 2 ^ e + t)) ∧
      clean boolSwap low (2 ^ e) (2 ^ e) w (low + 2 ^ e + t) =
        (w (low + t) || w (low + 2 ^ e + t)) := by
  have happ := clean_apply boolSwap low (2 ^ e) (2 ^ e) w le_rfl t ht
  rw [Nat.add_right_comm low t] at happ
  rw [happ.1, happ.2]
  cases w (low + t) <;> cases w (low + 2 ^ e + t) <;> simp [boolSwap, ht]

lemma classCount_clean (w : ℕ → Bool) (low e j c : ℕ) (hj : j ≤ e) (hc : c < 2 ^ j) :
    classCount w low (e + 1) j c =
      classCount (clean boolSwap low (2 ^ e) (2 ^ e) w) low e j c +
        classCount (clean boolSwap low (2 ^ e) (2 ^ e) w) (low + 2 ^ e) e j c := by
  rw [classCount_succ w low e j c hj]
  unfold classCount
  rw [← Finset.sum_add_distrib, ← Finset.sum_add_distrib]
  apply Finset.sum_congr rfl
  intro q hq
  have hb := clean_bool e low w _ (class_pos_lt hj hc (Finset.mem_range.mp hq))
  rw [Nat.add_assoc low, Nat.add_assoc (low + 2 ^ e), hb.1, hb.2]
  cases w (low + (c + q * 2 ^ j)) <;> cases w (low + 2 ^ e + (c + q * 2 ^ j)) <;> rfl

/-- A word is balanced if and only if the half cleaner leaves a constant half and two
balanced halves. -/
lemma balanced_succ_iff (e low : ℕ) (w : ℕ → Bool) :
    Balanced (e + 1) low w ↔
      ((∀ t < 2 ^ e, clean boolSwap low (2 ^ e) (2 ^ e) w (low + t) = false) ∨
        ∀ t < 2 ^ e, clean boolSwap low (2 ^ e) (2 ^ e) w (low + 2 ^ e + t) = true) ∧
      Balanced e low (clean boolSwap low (2 ^ e) (2 ^ e) w) ∧
      Balanced e (low + 2 ^ e) (clean boolSwap low (2 ^ e) (2 ^ e) w) := by
  set u := clean boolSwap low (2 ^ e) (2 ^ e) w with hu
  -- the classes modulo `2 ^ e` are the compared pairs
  have hpair : ∀ c < 2 ^ e, classCount w low (e + 1) e c =
      (u (low + c)).toNat + (u (low + 2 ^ e + c)).toNat := by
    intro c hc
    rw [classCount_clean w low e e c le_rfl hc]
    simp [classCount, ← hu]
  constructor
  · intro hbal
    have hconst : (∀ t < 2 ^ e, u (low + t) = false) ∨
        ∀ t < 2 ^ e, u (low + 2 ^ e + t) = true := by
      by_contra hno
      push Not at hno
      obtain ⟨⟨c, hc, hlo⟩, c', hc', hhi⟩ := hno
      have hle := hbal e (by omega) c hc c' hc'
      rw [hpair c hc, hpair c' hc'] at hle
      have h1 := clean_bool e low w c hc
      have h2 := clean_bool e low w c' hc'
      rw [← hu] at h1 h2
      revert hle hlo hhi
      rw [h1.1, h1.2, h2.1, h2.2]
      cases w (low + c) <;> cases w (low + 2 ^ e + c) <;> cases w (low + c') <;>
        cases w (low + 2 ^ e + c') <;> simp
    refine ⟨hconst, fun j hj c hc c' hc' => ?_, fun j hj c hc c' hc' => ?_⟩
    all_goals
      have hle := hbal j (by omega) c hc c' hc'
      rw [classCount_clean w low e j c hj.le hc, classCount_clean w low e j c' hj.le hc',
        ← hu] at hle
    · rcases hconst with hf | ht
      · rw [classCount_const_false hj.le hc hf]; omega
      · rw [classCount_const_true hj.le hc ht, classCount_const_true hj.le hc' ht] at hle
        omega
    · rcases hconst with hf | ht
      · rw [classCount_const_false hj.le hc hf, classCount_const_false hj.le hc' hf] at hle
        omega
      · rw [classCount_const_true hj.le hc ht, classCount_const_true hj.le hc' ht]; omega
  · rintro ⟨hconst, hlo, hhi⟩ j hj c hc c' hc'
    rcases Nat.lt_succ_iff_lt_or_eq.mp hj with hlt | rfl
    · have h1 := hlo j hlt c hc c' hc'
      have h2 := hhi j hlt c hc c' hc'
      rw [classCount_clean w low e j c hlt.le hc, classCount_clean w low e j c' hlt.le hc',
        ← hu]
      rcases hconst with hf | ht
      · rw [classCount_const_false hlt.le hc hf, classCount_const_false hlt.le hc' hf]; omega
      · rw [classCount_const_true hlt.le hc ht, classCount_const_true hlt.le hc' ht]; omega
    · rw [hpair c hc, hpair c' hc']
      rcases hconst with hf | ht
      · rw [hf c hc, hf c' hc']
        cases u (low + 2 ^ j + c) <;> simp
      · rw [ht c hc, ht c' hc']
        cases u (low + c) <;> simp

/-! ### What the merging network sorts -/

lemma segment_iff (low n : ℕ) (P : ℕ → Prop) :
    (∀ t, low ≤ t → t < low + n → P t) ↔ ∀ t < n, P (low + t) := by
  constructor
  · intro h t ht
    exact h (low + t) (by omega) (by omega)
  · intro h t hlo hhi
    have ht := h (t - low) (by omega)
    rwa [Nat.add_sub_cancel' hlo] at ht

lemma monotoneOn_congr [Preorder κ] {f g : ℕ → κ} {s : Set ℕ} (h : ∀ t ∈ s, f t = g t) :
    MonotoneOn f s ↔ MonotoneOn g s :=
  ⟨fun hf => hf.congr h, fun hg => hg.congr fun t ht => (h t ht).symm⟩

lemma monotoneOn_bool_iff (low n k : ℕ) (w : ℕ → Bool) (hk : k ≤ n) :
    MonotoneOn w (Set.Ico low (low + n)) ↔
      ((∀ t, low ≤ t → t < low + k → w t = false) ∨
        ∀ t, low + k ≤ t → t < low + k + (n - k) → w t = true) ∧
      MonotoneOn w (Set.Ico low (low + k)) ∧
      MonotoneOn w (Set.Ico (low + k) (low + k + (n - k))) := by
  have hend : low + k + (n - k) = low + n := by omega
  rw [hend]
  constructor
  · intro h
    refine ⟨?_, h.mono (Set.Ico_subset_Ico le_rfl (by omega)),
      h.mono (Set.Ico_subset_Ico (by omega) le_rfl)⟩
    by_contra hno
    push Not at hno
    obtain ⟨⟨s, hs, hs', hws⟩, t, ht, ht', hwt⟩ := hno
    have hle := h ⟨hs, by omega⟩ ⟨by omega, ht'⟩ (by omega : s ≤ t)
    rw [Bool.eq_true_of_not_eq_false hws, Bool.eq_false_of_not_eq_true hwt] at hle
    exact absurd hle (by decide)
  · rintro ⟨hconst, hlo, hhi⟩ s ⟨hs, hs'⟩ t ⟨ht, ht'⟩ hst
    by_cases hsk : s < low + k
    · by_cases htk : t < low + k
      · exact hlo ⟨hs, hsk⟩ ⟨ht, htk⟩ hst
      · rcases hconst with hf | htr
        · rw [hf s hs hsk]; exact Bool.false_le _
        · rw [htr t (by omega) ht']; exact Bool.le_true _
    · exact hhi ⟨by omega, hs'⟩ ⟨by omega, ht'⟩ hst

/-- The merging network sorts exactly the balanced words. -/
theorem mergeNet_bool_sorted_iff (e low : ℕ) (w : ℕ → Bool) :
    MonotoneOn (mergeNet boolSwap e low w) (Set.Ico low (low + 2 ^ e)) ↔ Balanced e low w := by
  induction e generalizing low w with
  | zero =>
    constructor
    · intro _ j hj
      omega
    · rintro _ s ⟨hs, hs'⟩ t ⟨ht, ht'⟩ _
      have hst : s = t := by simp at hs' ht'; omega
      rw [hst]
  | succ e ih =>
    have hp : 2 ^ (e + 1) = 2 ^ e + 2 ^ e := by ring
    set u := clean boolSwap low (2 ^ e) (2 ^ e) w with hu
    set x := mergeNet boolSwap e low u with hx
    have hnet : mergeNet boolSwap (e + 1) low w = mergeNet boolSwap e (low + 2 ^ e) x := rfl
    have hlower : ∀ t, low ≤ t → t < low + 2 ^ e →
        mergeNet boolSwap e (low + 2 ^ e) x t = x t := fun t _ ht =>
      (mergeNet_permOn boolSwap e (low + 2 ^ e) x).frame (by omega)
    have hupper : ∀ t, low + 2 ^ e ≤ t → x t = u t := fun t ht =>
      (mergeNet_permOn boolSwap e low u).frame (by omega)
    have hhi : ∀ t, low + 2 ^ e ≤ t → t < low + 2 ^ e + 2 ^ e →
        mergeNet boolSwap e (low + 2 ^ e) x t = mergeNet boolSwap e (low + 2 ^ e) u t :=
      fun t ht ht' => mergeNet_congr boolSwap e (low + 2 ^ e) x u
        (fun s hs _ => hupper s hs) t ht ht'
    rw [balanced_succ_iff, ← hu, ← ih low u, ← ih (low + 2 ^ e) u, hnet, hp,
      monotoneOn_bool_iff low (2 ^ e + 2 ^ e) (2 ^ e) _ (Nat.le_add_right _ _),
      Nat.add_sub_cancel]
    have hfalse : (∀ t, low ≤ t → t < low + 2 ^ e →
        mergeNet boolSwap e (low + 2 ^ e) x t = false) ↔
        ∀ t < 2 ^ e, u (low + t) = false := by
      rw [← (PermOn.forall_iff (mergeNet_permOn boolSwap e low u) (· = false)).trans
        (segment_iff low (2 ^ e) (fun a => u a = false))]
      exact forall₃_congr fun t h1 h2 => by rw [hlower t h1 h2]
    have htrue : (∀ t, low + 2 ^ e ≤ t → t < low + 2 ^ e + 2 ^ e →
        mergeNet boolSwap e (low + 2 ^ e) x t = true) ↔
        ∀ t < 2 ^ e, u (low + 2 ^ e + t) = true := by
      rw [← (PermOn.forall_iff (mergeNet_permOn boolSwap e (low + 2 ^ e) u) (· = true)).trans
        (segment_iff (low + 2 ^ e) (2 ^ e) (fun a => u a = true))]
      exact forall₃_congr fun t h1 h2 => by rw [hhi t h1 h2]
    rw [hfalse, htrue]
    refine and_congr Iff.rfl (and_congr ?_ ?_)
    · exact monotoneOn_congr fun t ht => hlower t ht.1 ht.2
    · exact monotoneOn_congr fun t ht => hhi t ht.1 ht.2

/-! ### Tests that follow a key -/

/-- `swap` keeps what is ordered by `key` and exchanges what is not. -/
structure SwapBy [LinearOrder κ] (swap : α → α → Bool) (key : α → κ) : Prop where
  keep : ∀ a b, key a < key b → swap a b = false
  exchange : ∀ a b, key b < key a → swap a b = true

def thresholdWord [LinearOrder κ] (key : α → κ) (v : ℕ → α) (x : κ) (t : ℕ) : Bool :=
  decide (x ≤ key (v t))

lemma monotoneOn_iff_threshold [LinearOrder κ] (key : α → κ) (v : ℕ → α) (s : Set ℕ) :
    MonotoneOn (key ∘ v) s ↔ ∀ x, MonotoneOn (thresholdWord key v x) s := by
  constructor
  · intro h x a ha b hb hab
    rw [Bool.le_iff_imp]
    intro hxa
    have hxa' : x ≤ key (v a) := of_decide_eq_true hxa
    exact decide_eq_true (hxa'.trans (h ha hb hab))
  · intro h a ha b hb hab
    have hle := h (key (v a)) ha hb hab
    rw [Bool.le_iff_imp] at hle
    exact of_decide_eq_true (hle (decide_eq_true le_rfl))

lemma thresholdWord_mergeNet [LinearOrder κ] {swap : α → α → Bool} {key : α → κ}
    (hs : SwapBy swap key) (e low : ℕ) (v : ℕ → α) (x : κ) :
    thresholdWord key (mergeNet swap e low v) x =
      mergeNet boolSwap e low (thresholdWord key v x) := by
  refine mergeNet_map (g := fun a => decide (x ≤ key a)) (fun a b => ?_) e low v
  by_cases ha : x ≤ key a <;> by_cases hb : x ≤ key b
  · simp [ha, hb]
  · right
    rw [hs.exchange a b (lt_of_lt_of_le (not_le.mp hb) ha)]
    simp [ha, hb, boolSwap]
  · right
    rw [hs.keep a b (lt_of_lt_of_le (not_le.mp ha) hb)]
    simp [ha, hb, boolSwap]
  · simp [ha, hb]

/-- The merging network sorts a sequence if and only if every threshold is balanced. -/
theorem mergeNet_sorted_iff [LinearOrder κ] {swap : α → α → Bool} {key : α → κ}
    (hs : SwapBy swap key) (e low : ℕ) (v : ℕ → α) :
    MonotoneOn (key ∘ mergeNet swap e low v) (Set.Ico low (low + 2 ^ e)) ↔
      ∀ x, Balanced e low (thresholdWord key v x) := by
  rw [monotoneOn_iff_threshold]
  refine forall_congr' fun x => ?_
  rw [thresholdWord_mergeNet hs, mergeNet_bool_sorted_iff]

/-! ### Intervals are balanced -/

lemma sum_toNat_lt (n Q : ℕ) :
    ∑ q ∈ Finset.range Q, (decide (q < n)).toNat = min n Q := by
  induction Q with
  | zero => simp
  | succ Q ih =>
    rw [Finset.sum_range_succ, ih]
    by_cases h : Q < n
    · simp [h]; omega
    · simp [h]; omega

lemma add_mul_lt_iff (c r x q : ℕ) (hr : 0 < r) : c + q * r < x ↔ q < (x - c + (r - 1)) / r := by
  rw [Nat.lt_div_iff_mul_lt hr]
  rw [Nat.mul_comm q r]
  omega

lemma sum_initial (r x Q c c' : ℕ) (hc : c ≤ c') (hc' : c' < r) :
    ∑ q ∈ Finset.range Q, (decide (c' + q * r < x)).toNat ≤
        ∑ q ∈ Finset.range Q, (decide (c + q * r < x)).toNat ∧
      ∑ q ∈ Finset.range Q, (decide (c + q * r < x)).toNat ≤
        ∑ q ∈ Finset.range Q, (decide (c' + q * r < x)).toNat + 1 := by
  have hr : 0 < r := by omega
  have hcount : ∀ c, ∑ q ∈ Finset.range Q, (decide (c + q * r < x)).toNat =
      min ((x - c + (r - 1)) / r) Q := by
    intro c
    rw [← sum_toNat_lt]
    refine Finset.sum_congr rfl fun q _ => ?_
    rw [decide_eq_decide.mpr (add_mul_lt_iff c r x q hr)]
  rw [hcount, hcount]
  have h1 : (x - c' + (r - 1)) / r ≤ (x - c + (r - 1)) / r := Nat.div_le_div_right (by omega)
  have h2 : (x - c + (r - 1)) / r ≤ (x - c' + (r - 1)) / r + 1 := by
    rw [← Nat.add_div_right _ hr]
    exact Nat.div_le_div_right (by omega)
  omega

lemma balanced_interval (e low a b : ℕ) {w : ℕ → Bool}
    (hw : ∀ t < 2 ^ e, w (low + t) = decide (a ≤ t ∧ t < b)) : Balanced e low w := by
  rcases Nat.lt_or_ge b a with hba | hab
  · intro j hj c hc c' hc'
    rw [classCount_const_false hj.le hc fun t ht => by rw [hw t ht]; simp; omega]
    omega
  intro j hj c hc c' hc'
  have hdiff : ∀ c < 2 ^ j, classCount w low e j c +
      ∑ q ∈ Finset.range (2 ^ (e - j)), (decide (c + q * 2 ^ j < a)).toNat =
        ∑ q ∈ Finset.range (2 ^ (e - j)), (decide (c + q * 2 ^ j < b)).toNat := by
    intro c hc
    unfold classCount
    rw [← Finset.sum_add_distrib]
    refine Finset.sum_congr rfl fun q hq => ?_
    rw [Nat.add_assoc, hw _ (class_pos_lt hj.le hc (Finset.mem_range.mp hq))]
    by_cases h1 : c + q * 2 ^ j < a
    · have h2 : c + q * 2 ^ j < b := by omega
      have h3 : ¬ a ≤ c + q * 2 ^ j := by omega
      simp [h1, h2, h3]
    · have h3 : a ≤ c + q * 2 ^ j := by omega
      simp [h1, h3]
  have h1 := hdiff c hc
  have h2 := hdiff c' hc'
  rcases Nat.le_total c c' with hle | hle
  · have ha := sum_initial (2 ^ j) a (2 ^ (e - j)) c c' hle hc'
    have hb := sum_initial (2 ^ j) b (2 ^ (e - j)) c c' hle hc'
    omega
  · have ha := sum_initial (2 ^ j) a (2 ^ (e - j)) c' c hle hc
    have hb := sum_initial (2 ^ j) b (2 ^ (e - j)) c' c hle hc
    omega

lemma classCount_not (w : ℕ → Bool) (low e j c : ℕ) :
    classCount w low e j c + classCount (fun t => !w t) low e j c = 2 ^ (e - j) := by
  unfold classCount
  rw [← Finset.sum_add_distrib, Finset.sum_congr rfl (g := fun _ => 1)]
  · simp
  · intro q _
    change (w (low + c + q * 2 ^ j)).toNat + (!w (low + c + q * 2 ^ j)).toNat = 1
    cases w (low + c + q * 2 ^ j) <;> rfl

lemma balanced_not {e low : ℕ} {w : ℕ → Bool} (h : Balanced e low fun t => !w t) :
    Balanced e low w := by
  intro j hj c hc c' hc'
  have hle := h j hj c' hc' c hc
  have h1 := classCount_not w low e j c
  have h2 := classCount_not w low e j c'
  omega

lemma monotoneOn_not_iff (w : ℕ → Bool) (s : Set ℕ) :
    MonotoneOn (fun t => !w t) s ↔ AntitoneOn w s := by
  refine forall₂_congr fun a _ => forall₂_congr fun b _ => forall_congr' fun _ => ?_
  change (!w a) ≤ (!w b) ↔ w b ≤ w a
  cases w a <;> cases w b <;> decide

lemma antitoneOn_not_iff (w : ℕ → Bool) (s : Set ℕ) :
    AntitoneOn (fun t => !w t) s ↔ MonotoneOn w s := by
  refine forall₂_congr fun a _ => forall₂_congr fun b _ => forall_congr' fun _ => ?_
  change (!w b) ≤ (!w a) ↔ w a ≤ w b
  cases w a <;> cases w b <;> decide

lemma exists_turn (low n : ℕ) (w : ℕ → Bool) (h : MonotoneOn w (Set.Ico low (low + n))) :
    ∃ a ≤ n, ∀ t < n, w (low + t) = decide (a ≤ t) := by
  induction n with
  | zero => exact ⟨0, le_rfl, fun t ht => by omega⟩
  | succ n ih =>
    obtain ⟨a, ha, hw⟩ := ih (h.mono (Set.Ico_subset_Ico le_rfl (by omega)))
    by_cases hn : w (low + n) = true
    · refine ⟨a, by omega, fun t ht => ?_⟩
      rcases Nat.lt_succ_iff_lt_or_eq.mp ht with hlt | rfl
      · exact hw t hlt
      · rw [hn, decide_eq_true ha]
    · refine ⟨n + 1, le_rfl, fun t ht => ?_⟩
      have hle := h (a := low + t) (b := low + n) ⟨by omega, by omega⟩ ⟨by omega, by omega⟩
        (by omega)
      rw [Bool.eq_false_of_not_eq_true hn] at hle
      rw [le_bot_iff.mp hle, decide_eq_false (by omega)]
      rfl

lemma balanced_up_down (e low : ℕ) (w : ℕ → Bool)
    (hup : MonotoneOn w (Set.Ico low (low + 2 ^ e)))
    (hdown : AntitoneOn w (Set.Ico (low + 2 ^ e) (low + 2 ^ e + 2 ^ e))) :
    Balanced (e + 1) low w := by
  obtain ⟨a, ha, hlo⟩ := exists_turn low (2 ^ e) w hup
  obtain ⟨b, hb, hhi⟩ := exists_turn (low + 2 ^ e) (2 ^ e) (fun t => !w t)
    ((monotoneOn_not_iff w _).mpr hdown)
  refine balanced_interval (e + 1) low a (2 ^ e + b) fun t ht => ?_
  rw [pow_succ, Nat.mul_two] at ht
  by_cases htk : t < 2 ^ e
  · rw [hlo t htk]
    exact decide_eq_decide.mpr (by omega)
  · have hpos := hhi (t - 2 ^ e) (by omega)
    rw [show low + 2 ^ e + (t - 2 ^ e) = low + t by omega] at hpos
    rw [← Bool.not_not (w (low + t)), hpos, ← decide_not]
    exact decide_eq_decide.mpr (by omega)

lemma balanced_down_up (e low : ℕ) (w : ℕ → Bool)
    (hdown : AntitoneOn w (Set.Ico low (low + 2 ^ e)))
    (hup : MonotoneOn w (Set.Ico (low + 2 ^ e) (low + 2 ^ e + 2 ^ e))) :
    Balanced (e + 1) low w := by
  apply balanced_not
  apply balanced_up_down
  · exact (monotoneOn_not_iff w _).mpr hdown
  · exact (antitoneOn_not_iff w _).mpr hup

/-! ### The sorting network -/

/-- A family of tests that follows keys, with `down` the reverse of `up`. -/
structure SwapFamily [LinearOrder κ] (swap : δ → α → α → Bool) (key : δ → α → κ)
    (up down : δ) : Prop where
  follows : ∀ d, SwapBy (swap d) (key d)
  reverse : ∀ a b, key down a ≤ key down b ↔ key up b ≤ key up a

lemma SwapFamily.comap [LinearOrder κ] {swap : δ → β → β → Bool} {key : δ → β → κ}
    {up down : δ} (h : SwapFamily swap key up down) (g : α → β) :
    SwapFamily (fun d x y => swap d (g x) (g y)) (fun d x => key d (g x)) up down where
  follows d := ⟨fun a b => (h.follows d).keep (g a) (g b),
    fun a b => (h.follows d).exchange (g a) (g b)⟩
  reverse a b := h.reverse (g a) (g b)

section SortNet

variable [LinearOrder κ] {swap : δ → α → α → Bool} {key : δ → α → κ} {up down : δ}

def sortedHalves (swap : δ → α → α → Bool) (up down : δ) (e low : ℕ) (v : ℕ → α) : ℕ → α :=
  sortNet swap up down e (low + 2 ^ e) down (sortNet swap up down e low up v)

lemma sortedHalves_lower (e low : ℕ) (v : ℕ → α) {t : ℕ} (ht : t < low + 2 ^ e) :
    sortedHalves swap up down e low v t = sortNet swap up down e low up v t :=
  (sortNet_permOn swap up down e (low + 2 ^ e) down _).frame (by omega)

lemma sortNet_succ (e low : ℕ) (d : δ) (v : ℕ → α) :
    sortNet swap up down (e + 1) low d v =
      mergeNet (swap d) (e + 1) low (sortedHalves swap up down e low v) := rfl

/-- The sorting network sorts in the direction `d` if and only if the last merge receives
a sequence balanced for `d`. -/
theorem sortNet_sorted_iff (hf : SwapFamily swap key up down) (e low : ℕ) (d : δ)
    (v : ℕ → α) :
    MonotoneOn (key d ∘ sortNet swap up down (e + 1) low d v)
        (Set.Ico low (low + 2 ^ (e + 1))) ↔
      ∀ x, Balanced (e + 1) low (thresholdWord (key d) (sortedHalves swap up down e low v) x) := by
  rw [sortNet_succ]
  exact mergeNet_sorted_iff (hf.follows d) (e + 1) low _

/-- Both directions that the recursion uses are sorted. -/
theorem sortNet_sorted (hf : SwapFamily swap key up down) (e low : ℕ) (d : δ)
    (hd : d = up ∨ d = down) (v : ℕ → α) :
    MonotoneOn (key d ∘ sortNet swap up down e low d v) (Set.Ico low (low + 2 ^ e)) := by
  induction e generalizing low d v with
  | zero =>
    rintro s ⟨hs, hs'⟩ t ⟨ht, ht'⟩ _
    have hst : s = t := by simp at hs' ht'; omega
    rw [hst]
  | succ e ih =>
    rw [sortNet_sorted_iff hf]
    have hlo : MonotoneOn (key up ∘ sortedHalves swap up down e low v)
        (Set.Ico low (low + 2 ^ e)) := by
      refine (monotoneOn_congr fun t ht => ?_).mpr (ih low up (.inl rfl) v)
      rw [Function.comp_apply, sortedHalves_lower e low v ht.2]
      rfl
    have hhi : MonotoneOn (key down ∘ sortedHalves swap up down e low v)
        (Set.Ico (low + 2 ^ e) (low + 2 ^ e + 2 ^ e)) :=
      ih (low + 2 ^ e) down (.inr rfl) (sortNet swap up down e low up v)
    rcases hd with rfl | rfl
    · intro x
      apply balanced_up_down
      · exact (monotoneOn_iff_threshold _ _ _).mp hlo x
      · intro s hs t ht hst
        have hle := (hf.reverse _ _).mp (hhi hs ht hst)
        rw [Bool.le_iff_imp]
        intro hxt
        exact decide_eq_true ((of_decide_eq_true hxt).trans hle)
    · intro x
      apply balanced_down_up
      · intro s hs t ht hst
        have hle := (hf.reverse _ _).mpr (hlo hs ht hst)
        rw [Bool.le_iff_imp]
        intro hxt
        exact decide_eq_true ((of_decide_eq_true hxt).trans hle)
      · exact (monotoneOn_iff_threshold _ _ _).mp hhi x

end SortNet

end OISA.Lib.Bitonic
