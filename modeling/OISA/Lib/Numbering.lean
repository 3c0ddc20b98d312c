import Mathlib.Data.List.Perm.Basic
import Mathlib.Tactic.Linarith
import Mathlib.Tactic.Ring

/-!
# Numbers from both ends

Elements of a list get distinct numbers, each the lowest or the highest one that is left. An
element without a number has number 0.
-/

namespace OISA.Lib

variable {α : Type*}

/-- The numbers from `first` to `last` are left, one more than the elements without a number. -/
structure Numbered (all : List α) (number : α → ℤ) (first last : ℤ) : Prop where
  pos : 1 ≤ first
  left : first + all.countP (number · = 0) = last
  split : ∀ a, number a = 0 ∨ 1 ≤ number a ∧ number a < first ∨ last < number a
  inj : ∀ a b, number a ≠ 0 → number a = number b → a = b

variable {all : List α} {number : α → ℤ} {first last : ℤ} {a : α}

lemma numbered_zero (all : List α) : Numbered all (fun _ => 0) 1 (all.length + 1) where
  pos := le_rfl
  left := by
    rw [List.countP_eq_length.mpr fun a _ => decide_eq_true rfl]
    ring
  split _ := .inl rfl
  inj _ _ h := absurd rfl h

lemma Numbered.lt_of_zero (h : Numbered all number first last) (ha : a ∈ all)
    (h0 : number a = 0) : first < last := by
  have hpos : 0 < all.countP (number · = 0) := List.countP_pos_iff.mpr ⟨a, ha, by simpa using h0⟩
  have := h.left
  omega

lemma Numbered.exists_zero (h : Numbered all number first last) (hlt : first < last) :
    ∃ a ∈ all, number a = 0 := by
  have hpos : 0 < all.countP (number · = 0) := by
    have := h.left
    omega
  obtain ⟨a, ha, h0⟩ := List.countP_pos_iff.mp hpos
  exact ⟨a, ha, by simpa using h0⟩

variable [DecidableEq α]

lemma countP_update {n : ℤ} (hall : all.Nodup) (ha : a ∈ all) (h0 : number a = 0) (hn : n ≠ 0) :
    all.countP (number · = 0) = all.countP (Function.update number a n · = 0) + 1 := by
  have hperm := List.perm_cons_erase ha
  rw [hperm.countP_eq, hperm.countP_eq, List.countP_cons_of_pos (by simpa using h0),
    List.countP_cons_of_neg (by simpa using hn)]
  congr 1
  refine List.countP_congr fun b hb => ?_
  have hne : b ≠ a := fun h => hall.not_mem_erase (h ▸ hb)
  rw [Function.update_of_ne hne]

namespace Numbered

private lemma inj_update (h : Numbered all number first last) {n : ℤ} (hn : first ≤ n)
    (hl : n ≤ last) (b c : α) (hb : Function.update number a n b ≠ 0)
    (heq : Function.update number a n b = Function.update number a n c) : b = c := by
  have hpos := h.pos
  by_cases hba : b = a <;> by_cases hca : c = a
  · rw [hba, hca]
  · subst hba
    rw [Function.update_self, Function.update_of_ne hca] at heq
    rcases h.split c with hc | hc | hc <;> omega
  · subst hca
    rw [Function.update_self, Function.update_of_ne hba] at heq
    rcases h.split b with hc | hc | hc <;> omega
  · rw [Function.update_of_ne hba] at hb heq
    rw [Function.update_of_ne hca] at heq
    exact h.inj b c hb heq

lemma giveFirst (h : Numbered all number first last) (hall : all.Nodup) (ha : a ∈ all)
    (h0 : number a = 0) : Numbered all (Function.update number a first) (first + 1) last where
  pos := by linarith [h.pos]
  left := by
    have hpos := h.pos
    have hc := countP_update (n := first) hall ha h0 (by omega)
    have hleft := h.left
    rw [hc] at hleft
    push_cast at hleft
    linarith
  split b := by
    by_cases hb : b = a
    · rw [hb, Function.update_self]
      exact .inr (.inl ⟨h.pos, lt_add_one first⟩)
    · rw [Function.update_of_ne hb]
      rcases h.split b with hs | hs | hs
      · exact .inl hs
      · exact .inr (.inl ⟨hs.1, by linarith⟩)
      · exact .inr (.inr hs)
  inj := h.inj_update le_rfl (h.lt_of_zero ha h0).le

lemma giveLast (h : Numbered all number first last) (hall : all.Nodup) (ha : a ∈ all)
    (h0 : number a = 0) : Numbered all (Function.update number a last) first (last - 1) where
  pos := h.pos
  left := by
    have hpos := h.pos
    have hlt := h.lt_of_zero ha h0
    have hc := countP_update (n := last) hall ha h0 (by omega)
    have hleft := h.left
    rw [hc] at hleft
    push_cast at hleft
    linarith
  split b := by
    by_cases hb : b = a
    · rw [hb, Function.update_self]
      exact .inr (.inr (by linarith))
    · rw [Function.update_of_ne hb]
      rcases h.split b with hs | hs | hs
      · exact .inl hs
      · exact .inr (.inl hs)
      · exact .inr (.inr (by linarith))
  inj := h.inj_update (h.lt_of_zero ha h0).le le_rfl

end Numbered

end OISA.Lib
