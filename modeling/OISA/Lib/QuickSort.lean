import OISA.Lib.Heaps

/-!
# Quicksort in place

The partition runs two indices towards each other, as Hoare's does, and the pivot is any element of
the range. The array is part of a state, read by `get` and changed by `swap`; `n` elements of it
may be touched. The upper index is kept one higher than in the usual programs, where it may become
-1. A loop that takes more steps than given is `none`.
-/

namespace OISA.Lib

variable {σ α : Type}

/-- A comparison by a total preorder, in the manner of `strcmp` -/
structure TotalPreorder (comp : α → α → ℤ) : Prop where
  sign : ∀ a b, comp a b < 0 ↔ 0 < comp b a
  trans : ∀ a b c, comp a b ≤ 0 → comp b c ≤ 0 → comp a c ≤ 0

lemma totalPreorder_sub : TotalPreorder fun x y : ℕ => (x : ℤ) - y :=
  ⟨fun a b => by omega, fun a b c => by omega⟩

section Programs

variable (get : σ → ℕ → α) (swap : σ → ℕ → ℕ → σ) (comp : α → α → ℤ) (pivot : ℕ → ℕ → ℕ)

def scanUp (s : σ) (ptr : α) : ℕ → ℕ → Option ℕ
  | 0, _ => none
  | steps + 1, i => if comp (get s i) ptr < 0 then scanUp s ptr steps (i + 1) else some i

def scanDown (s : σ) (ptr : α) : ℕ → Option ℕ
  | 0 => none
  | j + 1 => if 0 < comp (get s j) ptr then scanDown s ptr j else some (j + 1)

def partitionLoop (n : ℕ) (ptr : α) : ℕ → σ → ℕ → ℕ → Option (σ × ℕ × ℕ)
  | 0, _, _, _ => none
  | steps + 1, s, i, j => do
    let i ← scanUp get comp s ptr (n + 1) i
    let j ← scanDown get comp s ptr j
    let (s, i, j) := if i < j then (swap s i (j - 1), i + 1, j - 1) else (s, i, j)
    if i < j then partitionLoop n ptr steps s i j else some (s, i, j)

def quickSort (n : ℕ) : ℕ → σ → ℕ → ℕ → Option σ
  | 0, _, _, _ => none
  | steps + 1, s, lo, hi => do
    let ptr := get s (pivot lo hi)
    let (s, i, j) ← partitionLoop get swap comp n ptr (n + 1) s lo (hi + 1)
    let s ← if lo + 1 < j then quickSort n steps s lo (j - 1) else some s
    if i < hi then quickSort n steps s i hi else some s

end Programs

section Rearrangements

variable {n lo hi : ℕ} {f f' f'' : ℕ → α}

structure Rearranges (n lo hi : ℕ) (f f' : ℕ → α) : Prop where
  perm : ((List.range n).map f').Perm ((List.range n).map f)
  frame : ∀ k < n, k < lo ∨ hi < k → f' k = f k
  within : ∀ P : α → Prop, (∀ k, lo ≤ k → k ≤ hi → P (f k)) → ∀ k, lo ≤ k → k ≤ hi → P (f' k)

lemma Rearranges.refl (n lo hi : ℕ) (f : ℕ → α) : Rearranges n lo hi f f :=
  ⟨.refl _, fun _ _ _ => rfl, fun _ h => h⟩

lemma Rearranges.trans (h : Rearranges n lo hi f f') (h' : Rearranges n lo hi f' f'') :
    Rearranges n lo hi f f'' where
  perm := h'.perm.trans h.perm
  frame k hk hout := (h'.frame k hk hout).trans (h.frame k hk hout)
  within P hP := h'.within P (h.within P hP)

lemma Rearranges.mono {lo' hi' : ℕ} (h : Rearranges n lo hi f f') (hhi : hi' < n) (hlo : lo' ≤ lo)
    (hle : hi ≤ hi') : Rearranges n lo' hi' f f' where
  perm := h.perm
  frame k hk hout := h.frame k hk (by omega)
  within P hP k hlok hhik := by
    by_cases hin : lo ≤ k ∧ k ≤ hi
    · exact h.within P (fun l hl hl' => hP l (by omega) (by omega)) k hin.1 hin.2
    · rw [h.frame k (by omega) (by omega)]
      exact hP k hlok hhik

lemma rearranges_swap {i j : ℕ} (hn : hi < n) (hi' : lo ≤ i ∧ i ≤ hi) (hj : lo ≤ j ∧ j ≤ hi)
    (heq : ∀ k < n, f' k = swapAt f i j k) : Rearranges n lo hi f f' where
  perm := by
    have hmap : (List.range n).map f' = (List.range n).map (swapAt f i j) :=
      List.map_congr_left fun k hk => heq k (List.mem_range.mp hk)
    rw [hmap]
    exact perm_swapAt f (by omega) (by omega)
  frame k hk hout := by
    rw [heq k hk, swapAt_of_ne f (by omega) (by omega)]
  within P hP k hlok hhik := by
    rw [heq k (by omega)]
    by_cases hki : k = i
    · rw [hki, swapAt_left]
      exact hP j hj.1 hj.2
    · by_cases hkj : k = j
      · rw [hkj, swapAt_right]
        exact hP i hi'.1 hi'.2
      · rw [swapAt_of_ne f hki hkj]
        exact hP k hlok hhik

end Rearrangements

section Scans

variable {get : σ → ℕ → α} {comp : α → α → ℤ} {s : σ} {ptr : α}

lemma scanUp_spec (steps i : ℕ) {k : ℕ} (hik : i ≤ k) (hk : 0 ≤ comp (get s k) ptr)
    (hsteps : k - i < steps) : ∃ i', scanUp get comp s ptr steps i = some i' ∧ i ≤ i' ∧ i' ≤ k ∧
      (∀ l, i ≤ l → l < i' → comp (get s l) ptr < 0) ∧ 0 ≤ comp (get s i') ptr := by
  induction steps generalizing i with
  | zero => omega
  | succ steps ih =>
    rw [scanUp]
    by_cases hless : comp (get s i) ptr < 0
    · rw [if_pos hless]
      have hne : i ≠ k := by
        rintro rfl
        omega
      obtain ⟨i', hscan, hle, hle', hbelow, hstop⟩ := ih (i + 1) (by omega) (by omega)
      refine ⟨i', hscan, by omega, hle', ?_, hstop⟩
      intro l hl hl'
      by_cases heq : l = i
      · rw [heq]
        exact hless
      · exact hbelow l (by omega) hl'
    · rw [if_neg hless]
      exact ⟨i, rfl, le_refl i, hik, fun l hl hl' => absurd hl (by omega), not_lt.mp hless⟩

lemma scanDown_spec (j : ℕ) {k : ℕ} (hkj : k < j) (hk : comp (get s k) ptr ≤ 0) :
    ∃ j', scanDown get comp s ptr j = some j' ∧ j' ≤ j ∧ k < j' ∧
      (∀ l, j' ≤ l → l < j → 0 < comp (get s l) ptr) ∧ comp (get s (j' - 1)) ptr ≤ 0 := by
  induction j with
  | zero => omega
  | succ j ih =>
    rw [scanDown]
    by_cases hgreater : 0 < comp (get s j) ptr
    · rw [if_pos hgreater]
      have hne : k ≠ j := by
        rintro rfl
        omega
      obtain ⟨j', hscan, hle, hlt, habove, hstop⟩ := ih (by omega)
      refine ⟨j', hscan, by omega, hlt, ?_, hstop⟩
      intro l hl hl'
      by_cases heq : l = j
      · rw [heq]
        exact hgreater
      · exact habove l hl (by omega)
    · rw [if_neg hgreater]
      exact ⟨j + 1, rfl, le_refl _, hkj, fun l hl hl' => absurd hl (by omega), not_lt.mp hgreater⟩

end Scans

section Sorting

variable {get : σ → ℕ → α} {swap : σ → ℕ → ℕ → σ} {comp : α → α → ℤ} {pivot : ℕ → ℕ → ℕ}
  {inv : σ → Prop} {n lo hi i j : ℕ} {s : σ} {ptr : α}

def Swaps (get : σ → ℕ → α) (swap : σ → ℕ → ℕ → σ) (inv : σ → Prop) (n : ℕ) : Prop :=
  ∀ s i j, inv s → i < n → j < n →
    inv (swap s i j) ∧ ∀ k < n, get (swap s i j) k = swapAt (get s) i j k

/-- Below `i` no element is above the pivot, and from `j` on none is below it. -/
structure Divided (comp : α → α → ℤ) (ptr : α) (lo hi i j : ℕ) (f : ℕ → α) : Prop where
  low : ∀ k, lo ≤ k → k < i → comp (f k) ptr ≤ 0
  high : ∀ k, j ≤ k → k ≤ hi → 0 ≤ comp (f k) ptr

lemma Divided.exchange {f f' : ℕ → α} (h : Divided comp ptr lo hi i j f) (hn : hi < n)
    (hf' : ∀ k < n, f' k = swapAt f i (j - 1) k) (hij : i < j) (hj : j ≤ hi + 1)
    (hi' : 0 ≤ comp (f i) ptr) (hj' : comp (f (j - 1)) ptr ≤ 0) :
    Divided comp ptr lo hi (i + 1) (j - 1) f' where
  low k hlok hk := by
    rw [hf' k (by omega)]
    by_cases hki : k = i
    · rw [hki, swapAt_left]
      exact hj'
    · rw [swapAt_of_ne f hki (by omega)]
      exact h.low k hlok (by omega)
  high k hk hkhi := by
    rw [hf' k (by omega)]
    by_cases hkj : k = j - 1
    · rw [hkj, swapAt_right]
      exact hi'
    · rw [swapAt_of_ne f (by omega) hkj]
      exact h.high k (by omega) hkhi

/-- The loop ends, splits the range and leaves something out on either side. -/
lemma partitionLoop_spec (hswap : Swaps get swap inv n) (hn : hi < n) (steps : ℕ)
    (hsteps : j - i < steps) (hinv : inv s) (hlo : lo ≤ i) (hhi : j ≤ hi + 1) (hij : i < j)
    (hdivided : Divided comp ptr lo hi i j (get s))
    (hstop : lo < i ∧ j ≤ hi ∨ ∃ q, i ≤ q ∧ q < j ∧ comp (get s q) ptr = 0) :
    ∃ s' i' j', partitionLoop get swap comp n ptr steps s i j = some (s', i', j') ∧ inv s' ∧
      Rearranges n lo hi (get s) (get s') ∧ Divided comp ptr lo hi i' j' (get s') ∧ j' ≤ i' ∧
      lo < i' ∧ j' ≤ hi ∧ lo ≤ j' ∧ i' ≤ hi + 1 := by
  induction steps generalizing s i j with
  | zero => omega
  | succ steps ih =>
    obtain ⟨u, hiu, huhi, hu⟩ : ∃ u, i ≤ u ∧ u ≤ hi ∧ 0 ≤ comp (get s u) ptr := by
      cases hstop with
      | inl h => exact ⟨j, hij.le, h.2, hdivided.high j (le_refl j) h.2⟩
      | inr h =>
        obtain ⟨q, hq, hqj, heq⟩ := h
        exact ⟨q, hq, by omega, heq.ge⟩
    obtain ⟨d, hlod, hdj, hd⟩ : ∃ d, lo ≤ d ∧ d < j ∧ comp (get s d) ptr ≤ 0 := by
      cases hstop with
      | inl h => exact ⟨lo, le_refl lo, by omega, hdivided.low lo (le_refl lo) h.1⟩
      | inr h =>
        obtain ⟨q, hq, hqj, heq⟩ := h
        exact ⟨q, by omega, hqj, heq.le⟩
    obtain ⟨i', hscan, hii', hi'u, hbelow, hat⟩ := scanUp_spec (n + 1) i hiu hu (by omega)
    obtain ⟨j', hscan', hj'j, hdj', habove, hat'⟩ := scanDown_spec j hdj hd
    have hdivided' : Divided comp ptr lo hi i' j' (get s) := by
      constructor
      · intro k hlok hk
        by_cases hki : k < i
        · exact hdivided.low k hlok hki
        · exact (hbelow k (by omega) hk).le
      · intro k hk hkhi
        by_cases hkj : k < j
        · exact (habove k hk hkj).le
        · exact hdivided.high k (by omega) hkhi
    rw [partitionLoop, hscan]
    simp only [Option.bind_eq_bind, Option.bind_some, hscan']
    by_cases hmeet : i' < j'
    · obtain ⟨hinv', hget⟩ := hswap s i' (j' - 1) hinv (by omega) (by omega)
      have hrearranges : Rearranges n lo hi (get s) (get (swap s i' (j' - 1))) :=
        rearranges_swap hn ⟨by omega, by omega⟩ ⟨by omega, by omega⟩ hget
      have hnext := hdivided'.exchange hn hget hmeet (by omega) hat hat'
      simp only [if_pos hmeet]
      by_cases hmore : i' + 1 < j' - 1
      · rw [if_pos hmore]
        obtain ⟨s'', i'', j'', hloop, hinv'', hrest, hend⟩ := ih (by omega) hinv' (by omega)
          (by omega) hmore hnext (Or.inl ⟨by omega, by omega⟩)
        exact ⟨s'', i'', j'', hloop, hinv'', hrearranges.trans hrest, hend⟩
      · rw [if_neg hmore]
        exact ⟨_, _, _, rfl, hinv', hrearranges, hnext, by omega, by omega, by omega, by omega,
          by omega⟩
    · simp only [if_neg hmeet]
      -- The pivot itself would stop both scans, so this is not the first round.
      have hlater : lo < i ∧ j ≤ hi := by
        cases hstop with
        | inl h => exact h
        | inr h =>
          obtain ⟨q, hq, hqj, heq⟩ := h
          have hi'q : i' ≤ q := by
            by_contra hlt
            exact absurd (hbelow q hq (by omega)) (by omega)
          have hqj' : q < j' := by
            by_contra hle
            exact absurd (habove q (by omega) hqj) (by omega)
          omega
      exact ⟨_, _, _, rfl, hinv, .refl _ _ _ _, hdivided', by omega, by omega, by omega, by omega,
        by omega⟩

def SortedFrom (comp : α → α → ℤ) (lo hi : ℕ) (f : ℕ → α) : Prop :=
  ∀ k l, lo ≤ k → k < l → l ≤ hi → comp (f k) (f l) ≤ 0

lemma sortedFrom_of_le (h : hi ≤ lo) (f : ℕ → α) : SortedFrom comp lo hi f :=
  fun k l _ _ _ => by omega

/-- Sorting ends, and sorts the range. -/
theorem quickSort_spec (hcomp : TotalPreorder comp) (hswap : Swaps get swap inv n)
    (hpivot : ∀ lo hi, lo ≤ hi → lo ≤ pivot lo hi ∧ pivot lo hi ≤ hi) (steps : ℕ) (hinv : inv s)
    (hlo : lo ≤ hi) (hn : hi < n) (hsteps : hi - lo < steps) :
    ∃ s', quickSort get swap comp pivot n steps s lo hi = some s' ∧ inv s' ∧
      Rearranges n lo hi (get s) (get s') ∧ SortedFrom comp lo hi (get s') := by
  induction steps generalizing s lo hi with
  | zero => omega
  | succ steps ih =>
    obtain ⟨hpivotlo, hpivothi⟩ := hpivot lo hi hlo
    have hself : comp (get s (pivot lo hi)) (get s (pivot lo hi)) = 0 := by
      have := hcomp.sign (get s (pivot lo hi)) (get s (pivot lo hi))
      omega
    obtain ⟨s₁, i, j, hloop, hinv₁, hrearr₁, hdivided, hji, hloi, hjhi, hloj, hihi⟩ :=
      partitionLoop_spec hswap hn (n + 1) (show hi + 1 - lo < n + 1 by omega) hinv (le_refl lo)
        (le_refl (hi + 1)) (by omega) ⟨fun k hk hk' => absurd hk (by omega), fun k hk hk' =>
        absurd hk (by omega)⟩ (Or.inr ⟨pivot lo hi, hpivotlo, by omega, hself⟩)
    obtain ⟨s₂, hleft, hinv₂, hrearr₂, hsame, hsorted₂⟩ : ∃ s₂,
        (if lo + 1 < j then quickSort get swap comp pivot n steps s₁ lo (j - 1) else some s₁) =
          some s₂ ∧ inv s₂ ∧ Rearranges n lo (j - 1) (get s₁) (get s₂) ∧
        (∀ k < n, j ≤ k → get s₂ k = get s₁ k) ∧ SortedFrom comp lo (j - 1) (get s₂) := by
      by_cases hsort : lo + 1 < j
      · rw [if_pos hsort]
        obtain ⟨s₂, hs₂, hinv₂, hrearr₂, hsorted₂⟩ :=
          ih hinv₁ (show lo ≤ j - 1 by omega) (by omega) (by omega)
        exact ⟨s₂, hs₂, hinv₂, hrearr₂, fun k hk hjk => hrearr₂.frame k hk (by omega), hsorted₂⟩
      · rw [if_neg hsort]
        exact ⟨s₁, rfl, hinv₁, .refl _ _ _ _, fun _ _ _ => rfl, sortedFrom_of_le (by omega) _⟩
    obtain ⟨s₃, hright, hinv₃, hrearr₃, hsorted₃⟩ : ∃ s₃,
        (if i < hi then quickSort get swap comp pivot n steps s₂ i hi else some s₂) = some s₃ ∧
        inv s₃ ∧ Rearranges n i hi (get s₂) (get s₃) ∧ SortedFrom comp i hi (get s₃) := by
      by_cases hsort : i < hi
      · rw [if_pos hsort]
        exact ih hinv₂ hsort.le hn (by omega)
      · rw [if_neg hsort]
        exact ⟨s₂, rfl, hinv₂, .refl _ _ _ _, sortedFrom_of_le (not_lt.mp hsort) _⟩
    have hbelow : ∀ k, k < i → get s₃ k = get s₂ k := fun k hk =>
      hrearr₃.frame k (by omega) (Or.inl hk)
    have hlow : ∀ k, lo ≤ k → k < i → comp (get s₃ k) (get s (pivot lo hi)) ≤ 0 := by
      intro k hlok hk
      rw [hbelow k hk]
      by_cases hkj : k < j
      · exact hrearr₂.within (fun x => comp x (get s (pivot lo hi)) ≤ 0)
          (fun l hl hl' => hdivided.low l hl (by omega)) k hlok (by omega)
      · rw [hsame k (by omega) (by omega)]
        exact hdivided.low k hlok hk
    have hhigh : ∀ k, j ≤ k → k ≤ hi → 0 ≤ comp (get s₃ k) (get s (pivot lo hi)) := by
      have hhigh₂ : ∀ k, j ≤ k → k ≤ hi → 0 ≤ comp (get s₂ k) (get s (pivot lo hi)) := by
        intro k hk hkhi
        rw [hsame k (by omega) hk]
        exact hdivided.high k hk hkhi
      intro k hk hkhi
      by_cases hki : k < i
      · rw [hbelow k hki]
        exact hhigh₂ k hk hkhi
      · exact hrearr₃.within (fun x => 0 ≤ comp x (get s (pivot lo hi)))
          (fun l hl hl' => hhigh₂ l (by omega) hl') k (by omega) hkhi
    refine ⟨s₃, ?_, hinv₃, ?_, ?_⟩
    · rw [quickSort]
      simp only [Option.bind_eq_bind, hloop, Option.bind_some]
      by_cases hsort : lo + 1 < j
      · rw [if_pos hsort] at hleft ⊢
        rw [hleft, Option.bind_some]
        exact hright
      · rw [if_neg hsort, Option.some.injEq] at hleft
        rw [if_neg hsort, hleft]
        exact hright
    · exact hrearr₁.trans ((hrearr₂.mono hn (le_refl lo) (by omega)).trans
        (hrearr₃.mono hn hloi.le (le_refl hi)))
    · intro k l hk hkl hl
      by_cases hlj : l < j
      · rw [hbelow k (by omega), hbelow l (by omega)]
        exact hsorted₂ k l hk hkl (by omega)
      · by_cases hki : i ≤ k
        · exact hsorted₃ k l hki hkl hl
        · have hpl : comp (get s (pivot lo hi)) (get s₃ l) ≤ 0 := by
            have := hhigh l (by omega) hl
            have := hcomp.sign (get s₃ l) (get s (pivot lo hi))
            omega
          exact hcomp.trans _ _ _ (hlow k hk (by omega)) hpl

end Sorting

end OISA.Lib
