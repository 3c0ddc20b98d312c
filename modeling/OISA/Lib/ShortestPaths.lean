import Mathlib.Tactic

/-!
# Shortest walks and their relaxation

Walks over a relation, with their lengths.
-/

namespace OISA.Lib

variable {V : Type} {adj : V → V → Prop} {P : V → Prop}

inductive Walk (adj : V → V → Prop) : ℕ → V → V → Prop
  | nil (i : V) : Walk adj 0 i i
  | cons {i m j : V} {n : ℕ} : adj i m → Walk adj n m j → Walk adj (n + 1) i j

lemma Walk.trans {i k j : V} {n m : ℕ} (h : Walk adj n i k) (h' : Walk adj m k j) :
    Walk adj (n + m) i j := by
  induction h with
  | nil i =>
    rw [zero_add]
    exact h'
  | cons hadj _ ih =>
    rw [Nat.add_right_comm]
    exact .cons hadj (ih h')

lemma Walk.split {i j : V} {n m : ℕ} (h : Walk adj (n + m) i j) :
    ∃ k, Walk adj n i k ∧ Walk adj m k j := by
  induction n generalizing i with
  | zero =>
    rw [zero_add] at h
    exact ⟨i, .nil i, h⟩
  | succ n ih =>
    rw [Nat.add_right_comm] at h
    cases h with
    | cons hadj hrest =>
      obtain ⟨k, hk, hrest⟩ := ih hrest
      exact ⟨k, .cons hadj hk, hrest⟩

/-- Walks of at least one step whose inner vertices satisfy `P`. -/
inductive Via (adj : V → V → Prop) (P : V → Prop) : ℕ → V → V → Prop
  | single {i j : V} : adj i j → Via adj P 1 i j
  | cons {i m j : V} {n : ℕ} : adj i m → P m → Via adj P n m j → Via adj P (n + 1) i j

lemma Walk.via {i j : V} {n : ℕ} (h : Walk adj (n + 1) i j) :
    Via adj (fun _ => True) (n + 1) i j := by
  induction n generalizing i with
  | zero =>
    cases h with
    | cons hadj hrest =>
      cases hrest
      exact .single hadj
  | succ n ih =>
    cases h with
    | cons hadj hrest => exact .cons hadj trivial (ih hrest)

lemma Via.cut {k i j : V} {n : ℕ} (h : Via adj (fun m => P m ∨ m = k) n i j) :
    Via adj P n i j ∨ ∃ a b, a + b ≤ n ∧ Via adj P a i k ∧ Via adj P b k j := by
  induction h with
  | single hadj => exact .inl (.single hadj)
  | cons hadj hm _ ih =>
    rcases hm with hm | rfl
    · rcases ih with hvia | ⟨a, b, hle, ha, hb⟩
      · exact .inl (.cons hadj hm hvia)
      · exact .inr ⟨a + 1, b, by omega, .cons hadj hm ha, hb⟩
    · rcases ih with hvia | ⟨a, b, hle, ha, hb⟩
      · exact .inr ⟨1, _, by omega, .single hadj, hvia⟩
      · exact .inr ⟨1, b, by omega, .single hadj, hb⟩

/-- The distance of two vertices. -/
def IsDist (adj : V → V → Prop) (i j : V) (d : ℕ) : Prop :=
  Walk adj d i j ∧ ∀ n, Walk adj n i j → d ≤ n

lemma IsDist.unique {i j : V} {d e : ℕ} (h : IsDist adj i j d) (h' : IsDist adj i j e) : d = e :=
  le_antisymm (h.2 e h'.1) (h'.2 d h.1)

lemma exists_isDist {i j : V} {n : ℕ} (h : Walk adj n i j) : ∃ d, IsDist adj i j d := by
  classical
  have hex : ∃ n, Walk adj n i j := ⟨n, h⟩
  exact ⟨Nat.find hex, Nat.find_spec hex, fun m hm => Nat.find_min' hex hm⟩

/-- Distances are below the number of vertices: a shortest walk meets one vertex at each
smaller distance. -/
theorem IsDist.lt_card [Fintype V] {i j : V} {d : ℕ} (h : IsDist adj i j d) :
    d < Fintype.card V := by
  have hmeet : ∀ t : Fin (d + 1), ∃ m, IsDist adj i m t := by
    intro t
    obtain ⟨rest, hrest⟩ := Nat.exists_eq_add_of_le (Nat.le_of_lt_succ t.isLt)
    obtain ⟨m, hm, hmj⟩ := (hrest ▸ h.1 : Walk adj (t + rest) i j).split
    refine ⟨m, hm, fun n hn => ?_⟩
    have hshort := h.2 _ (hn.trans hmj)
    omega
  choose f hf using hmeet
  have hinj : Function.Injective f := fun t u htu => by
    have hu := hf u
    rw [← htu] at hu
    exact Fin.ext ((hf t).unique hu)
  have hcard := Fintype.card_le_of_injective f hinj
  rw [Fintype.card_fin] at hcard
  exact hcard

/-- The costs estimate the distances through the vertices of `P`, with `N` for no walk. -/
structure Estimates (adj : V → V → Prop) (P : V → Prop) (N : ℕ) (c : V → V → ℕ) : Prop where
  diagonal : ∀ i, c i i = 0
  le : ∀ i j, c i j ≤ N
  sound : ∀ i j, c i j < N → Walk adj (c i j) i j
  complete : ∀ i j n, Via adj P n i j → c i j ≤ n

/-- Relaxing through `k` estimates through `k` too. -/
theorem Estimates.relax {N : ℕ} {c : V → V → ℕ} (h : Estimates adj P N c) (k : V) :
    Estimates adj (fun m => P m ∨ m = k) N (fun i j => min (c i j) (c i k + c k j)) where
  diagonal i := by rw [h.diagonal, Nat.zero_min]
  le i j := (min_le_left _ _).trans (h.le i j)
  sound i j hlt := by
    rcases min_choice (c i j) (c i k + c k j) with hmin | hmin
    · rw [hmin] at hlt ⊢
      exact h.sound i j hlt
    · rw [hmin] at hlt ⊢
      exact (h.sound i k (by omega)).trans (h.sound k j (by omega))
  complete i j n hvia := by
    rcases hvia.cut with hvia | ⟨a, b, hle, ha, hb⟩
    · exact (min_le_left _ _).trans (h.complete i j n hvia)
    · have hka := h.complete i k a ha
      have hkb := h.complete k j b hb
      exact (min_le_right _ _).trans (by omega)

lemma Estimates.mono {N : ℕ} {c : V → V → ℕ} (h : Estimates adj P N c) {Q : V → Prop}
    (hPQ : ∀ m, Q m → P m) : Estimates adj Q N c where
  diagonal := h.diagonal
  le := h.le
  sound := h.sound
  complete i j n hvia := by
    refine h.complete i j n ?_
    induction hvia with
    | single hadj => exact .single hadj
    | cons hadj hm _ ih => exact .cons hadj (hPQ _ hm) ih

structure Distances (adj : V → V → Prop) (N : ℕ) (c : V → V → ℕ) : Prop where
  le : ∀ i j, c i j ≤ N
  sound : ∀ i j, c i j < N → Walk adj (c i j) i j
  least : ∀ i j n, Walk adj n i j → c i j ≤ n

/-- An estimate through all vertices gives the distances. -/
theorem Estimates.distances {N : ℕ} {c : V → V → ℕ} (h : Estimates adj (fun _ => True) N c) :
    Distances adj N c where
  le := h.le
  sound := h.sound
  least i j n hwalk := by
    cases n with
    | zero =>
      cases hwalk
      rw [h.diagonal]
    | succ n => exact h.complete i j (n + 1) hwalk.via

namespace Distances

variable {N : ℕ} {c : V → V → ℕ} (h : Distances adj N c)

include h

lemma triangle (i k j : V) : c i j ≤ c i k + c k j := by
  by_cases hik : c i k < N
  · by_cases hkj : c k j < N
    · exact h.least i j _ ((h.sound i k hik).trans (h.sound k j hkj))
    · have hle := h.le i j
      omega
  · have hle := h.le i j
    omega

lemma self (i : V) : c i i = 0 := Nat.le_zero.mp (h.least i i 0 (.nil i))

lemma eq_of_zero (hN : 0 < N) {i j : V} (hzero : c i j = 0) : i = j := by
  have hwalk := h.sound i j (by omega)
  rw [hzero] at hwalk
  cases hwalk
  rfl

lemma adj_of_one (hN : 1 < N) {i j : V} (hone : c i j = 1) : adj i j := by
  have hwalk := h.sound i j (by omega)
  rw [hone] at hwalk
  cases hwalk with
  | cons hadj hrest =>
    cases hrest
    exact hadj

lemma isDist {i j : V} (hlt : c i j < N) : IsDist adj i j (c i j) :=
  ⟨h.sound i j hlt, h.least i j⟩

lemma lt_iff [Fintype V] (hN : N = Fintype.card V) (i j : V) :
    c i j < N ↔ ∃ n, Walk adj n i j := by
  constructor
  · exact fun hlt => ⟨_, h.sound i j hlt⟩
  · rintro ⟨n, hwalk⟩
    obtain ⟨d, hd⟩ := exists_isDist hwalk
    rw [hN]
    exact (h.least i j d hd.1).trans_lt hd.lt_card

end Distances

end OISA.Lib
