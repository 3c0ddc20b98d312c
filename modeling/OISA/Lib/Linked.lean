import Mathlib.Tactic

/-!
# Linked sequences

Sequences of nodes described by their links, in both directions or in one.
-/

/-!
## Doubly linked sequences

`Linked next prev xs` says that the links of the nodes of `xs` describe this sequence in both
directions.
-/

namespace OISA.Lib

variable {α : Type}

/-- The element before a position -/
def before (xs : List α) (i : ℕ) : Option α := if i = 0 then none else xs[i - 1]?

structure Linked (next prev : α → Option α) (xs : List α) : Prop where
  nodup : xs.Nodup
  next : ∀ i x, xs[i]? = some x → next x = xs[i + 1]?
  prev : ∀ i x, xs[i]? = some x → prev x = before xs i

/-- The nodes that links lead through from a node, if the walk ends within the steps -/
def walk (next : α → Option α) : ℕ → Option α → Option (List α)
  | _, none => some []
  | 0, some _ => none
  | steps + 1, some x => (walk next steps (next x)).map (x :: ·)

section Rules

variable {next prev next' prev' : α → Option α} {xs : List α} {i : ℕ} {n x : α}

lemma linked_nil (next prev : α → Option α) : Linked next prev [] where
  nodup := List.nodup_nil
  next i x h := by cases h
  prev i x h := by cases h

lemma index_unique (h : xs.Nodup) {i j : ℕ} (hi : xs[i]? = some x) (hj : xs[j]? = some x) :
    i = j := by
  obtain ⟨hi', rfl⟩ := List.getElem?_eq_some_iff.mp hi
  obtain ⟨hj', hx⟩ := List.getElem?_eq_some_iff.mp hj
  exact (h.getElem_inj_iff.mp hx).symm

/-! Where a node stands is told by the ends of the sequence. -/

lemma index_eq_zero (h : xs.Nodup) (hx : xs[i]? = some x) (hhead : some x = xs.head?) : i = 0 := by
  rw [List.head?_eq_getElem?] at hhead
  exact index_unique h hx hhead.symm

lemma index_pos (hx : xs[i]? = some x) (hhead : some x ≠ xs.head?) : 0 < i := by
  apply Nat.pos_of_ne_zero
  rintro rfl
  rw [List.head?_eq_getElem?] at hhead
  exact hhead hx.symm

lemma index_succ_eq_length (h : xs.Nodup) (hx : xs[i]? = some x) (hlast : some x = xs.getLast?) :
    i + 1 = xs.length := by
  have hlt := (List.getElem?_eq_some_iff.mp hx).1
  rw [List.getLast?_eq_getElem?] at hlast
  have hsame := index_unique h hx hlast.symm
  omega

lemma index_succ_lt_length (hx : xs[i]? = some x) (hlast : some x ≠ xs.getLast?) :
    i + 1 < xs.length := by
  apply Nat.lt_of_le_of_ne (List.getElem?_eq_some_iff.mp hx).1
  intro hi
  rw [List.getLast?_eq_getElem?, ← hi] at hlast
  exact hlast hx.symm

lemma before_eq_some (h : before xs i = some x) : 0 < i ∧ xs[i - 1]? = some x := by
  unfold before at h
  split_ifs at h with hi
  exact ⟨Nat.pos_of_ne_zero hi, h⟩

lemma before_succ (xs : List α) (i : ℕ) : before xs (i + 1) = xs[i]? := if_neg (Nat.succ_ne_zero i)

lemma before_zero (xs : List α) : before xs 0 = none := if_pos rfl

lemma Linked.congr (h : Linked next prev xs) (hnext : ∀ x ∈ xs, next' x = next x)
    (hprev : ∀ x ∈ xs, prev' x = prev x) : Linked next' prev' xs where
  nodup := h.nodup
  next i x hx := by
    rw [hnext x (List.mem_of_getElem? hx)]
    exact h.next i x hx
  prev i x hx := by
    rw [hprev x (List.mem_of_getElem? hx)]
    exact h.prev i x hx

lemma getElem?_insertIdx_ite (hi : i ≤ xs.length) (n : α) (j : ℕ) : (xs.insertIdx i n)[j]? =
    if j < i then xs[j]? else if j = i then some n else xs[j - 1]? := by
  rw [List.getElem?_insertIdx]
  split_ifs <;> first | rfl | omega

lemma before_insertIdx (hi : i ≤ xs.length) (n : α) (j : ℕ) : before (xs.insertIdx i n) j =
    if j ≤ i then before xs j else if j = i + 1 then some n else before xs (j - 1) := by
  cases j with
  | zero => rfl
  | succ j =>
    rw [before_succ, before_succ, getElem?_insertIdx_ite hi, Nat.add_sub_cancel]
    simp only [Nat.lt_iff_add_one_le, Nat.add_right_cancel_iff]
    cases j with
    | zero =>
      rw [before_zero]
      split_ifs <;> first | rfl | omega
    | succ j => rw [before_succ, Nat.add_sub_cancel]

lemma Linked.insertIdx [DecidableEq α] (h : Linked next prev xs) (hi : i ≤ xs.length) (hn : n ∉ xs)
    (hnext : ∀ x ∈ xs, next' x = if before xs i = some x then some n else next x)
    (hprev : ∀ x ∈ xs, prev' x = if xs[i]? = some x then some n else prev x)
    (hnextn : next' n = xs[i]?) (hprevn : prev' n = before xs i) :
    Linked next' prev' (xs.insertIdx i n) := by
  refine ⟨(List.perm_insertIdx n xs hi).nodup_iff.mpr (List.nodup_cons.mpr ⟨hn, h.nodup⟩), ?_, ?_⟩
  · intro j x hx
    rw [getElem?_insertIdx_ite hi] at hx ⊢
    rcases Nat.lt_trichotomy j i with hj | hj | hj
    · rw [if_pos hj] at hx
      rw [hnext x (List.mem_of_getElem? hx), h.next j x hx]
      by_cases hji : j + 1 = i
      · have hbefore : before xs i = some x := by rw [← hji, before_succ, hx]
        rw [if_pos hbefore, if_neg (by omega), if_pos hji]
      · have hbefore : before xs i ≠ some x := fun hb =>
          absurd (index_unique h.nodup (before_eq_some hb).2 hx) (by omega)
        rw [if_neg hbefore, if_pos (by omega)]
    · rw [if_neg (by omega), if_pos hj] at hx
      cases hx
      rw [if_neg (by omega), if_neg (by omega), hnextn, hj, Nat.add_sub_cancel]
    · rw [if_neg (by omega), if_neg (by omega)] at hx
      have hbefore : before xs i ≠ some x := fun hb =>
        absurd (index_unique h.nodup (before_eq_some hb).2 hx)
          (by have := (before_eq_some hb).1; omega)
      rw [hnext x (List.mem_of_getElem? hx), if_neg hbefore, h.next _ x hx, if_neg (by omega),
        if_neg (by omega), Nat.sub_add_cancel (by omega), Nat.add_sub_cancel]
  · intro j x hx
    rw [getElem?_insertIdx_ite hi] at hx
    rw [before_insertIdx hi]
    rcases Nat.lt_trichotomy j i with hj | hj | hj
    · rw [if_pos hj] at hx
      have hat : xs[i]? ≠ some x := fun ha => absurd (index_unique h.nodup ha hx) (by omega)
      rw [hprev x (List.mem_of_getElem? hx), if_neg hat, h.prev j x hx, if_pos (by omega)]
    · rw [if_neg (by omega), if_pos hj] at hx
      cases hx
      rw [if_pos (by omega), hprevn, hj]
    · rw [if_neg (by omega), if_neg (by omega)] at hx
      rw [hprev x (List.mem_of_getElem? hx), h.prev _ x hx]
      by_cases hji : j = i + 1
      · rw [hji, Nat.add_sub_cancel] at hx
        rw [if_pos hx, if_neg (by omega), if_pos hji]
      · have hat : xs[i]? ≠ some x := fun ha => absurd (index_unique h.nodup ha hx) (by omega)
        rw [if_neg hat, if_neg (by omega), if_neg hji]

/-- A node is removed. -/
lemma Linked.eraseIdx [DecidableEq α] (h : Linked next prev xs) (hn : xs[i]? = some n)
    (hnext : ∀ x ∈ xs, x ≠ n → next' x = if before xs i = some x then xs[i + 1]? else next x)
    (hprev : ∀ x ∈ xs, x ≠ n → prev' x = if xs[i + 1]? = some x then before xs i else prev x) :
    Linked next' prev' (xs.eraseIdx i) := by
  have hne : ∀ {j x}, xs[j]? = some x → j ≠ i → x ≠ n := by
    intro j x hx hj heq
    exact hj (index_unique h.nodup hx (heq ▸ hn))
  refine ⟨h.nodup.sublist (List.eraseIdx_sublist xs i), ?_, ?_⟩
  · intro j x hx
    rw [List.getElem?_eraseIdx] at hx ⊢
    by_cases hj : j < i
    · rw [if_pos hj] at hx
      rw [hnext x (List.mem_of_getElem? hx) (hne hx (by omega)), h.next j x hx]
      by_cases hji : j + 1 = i
      · have hbefore : before xs i = some x := by rw [← hji, before_succ, hx]
        rw [if_pos hbefore, if_neg (by omega), hji]
      · have hbefore : before xs i ≠ some x := fun hb =>
          absurd (index_unique h.nodup (before_eq_some hb).2 hx) (by omega)
        rw [if_neg hbefore, if_pos (by omega)]
    · rw [if_neg hj] at hx
      have hbefore : before xs i ≠ some x := fun hb =>
        absurd (index_unique h.nodup (before_eq_some hb).2 hx)
          (by have := (before_eq_some hb).1; omega)
      rw [hnext x (List.mem_of_getElem? hx) (hne hx (by omega)), if_neg hbefore, h.next _ x hx,
        if_neg (by omega)]
  · intro j x hx
    rw [List.getElem?_eraseIdx] at hx
    by_cases hj : j < i
    · rw [if_pos hj] at hx
      have hat : xs[i + 1]? ≠ some x := fun ha => absurd (index_unique h.nodup ha hx) (by omega)
      rw [hprev x (List.mem_of_getElem? hx) (hne hx (by omega)), if_neg hat, h.prev j x hx]
      cases j with
      | zero => rfl
      | succ j => rw [before_succ, before_succ, List.getElem?_eraseIdx, if_pos (by omega)]
    · rw [if_neg hj] at hx
      rw [hprev x (List.mem_of_getElem? hx) (hne hx (by omega)), h.prev _ x hx]
      by_cases hji : j = i
      · subst hji
        rw [if_pos hx]
        cases j with
        | zero => rfl
        | succ j => rw [before_succ, before_succ, List.getElem?_eraseIdx, if_pos (by omega)]
      · have hat : xs[i + 1]? ≠ some x := fun ha => absurd (index_unique h.nodup ha hx) (by omega)
        rw [if_neg hat]
        obtain ⟨j, rfl⟩ : ∃ k, j = k + 1 := ⟨j - 1, by omega⟩
        rw [before_succ, before_succ, List.getElem?_eraseIdx, if_neg (by omega)]

lemma head?_insertIdx (hi : 0 < i) (hlen : i ≤ xs.length) (n : α) :
    (xs.insertIdx i n).head? = xs.head? := by
  rw [List.head?_eq_getElem?, List.head?_eq_getElem?, getElem?_insertIdx_ite hlen, if_pos hi]

lemma getLast?_insertIdx (hlen : i < xs.length) (n : α) :
    (xs.insertIdx i n).getLast? = xs.getLast? := by
  rw [List.getLast?_eq_getElem?, List.getLast?_eq_getElem?,
    List.length_insertIdx_of_le_length hlen.le, getElem?_insertIdx_ite hlen.le, Nat.add_sub_cancel,
    if_neg (by omega), if_neg (by omega)]

lemma head?_eraseIdx (xs : List α) (i : ℕ) :
    (xs.eraseIdx i).head? = if i = 0 then xs[1]? else xs.head? := by
  rw [List.head?_eq_getElem?, List.head?_eq_getElem?, List.getElem?_eraseIdx]
  by_cases hi : i = 0
  · rw [if_pos hi, if_neg (by omega)]
  · rw [if_neg hi, if_pos (by omega)]

lemma getLast?_eraseIdx (hi : i < xs.length) :
    (xs.eraseIdx i).getLast? = if i + 1 = xs.length then before xs i else xs.getLast? := by
  rw [List.getLast?_eq_getElem?, List.getLast?_eq_getElem?, List.length_eraseIdx_of_lt hi,
    List.getElem?_eraseIdx]
  by_cases hlast : i + 1 = xs.length
  · rw [if_pos hlast]
    cases i with
    | zero =>
      rw [before_zero, if_neg (by omega)]
      exact List.getElem?_eq_none (by omega)
    | succ i =>
      rw [before_succ, if_pos (by omega)]
      congr 1
      omega
  · rw [if_neg hlast, if_neg (by omega)]
    congr 1
    omega

lemma Linked.reverse (h : Linked next prev xs) : Linked prev next xs.reverse := by
  have hget : ∀ {j x}, xs.reverse[j]? = some x →
      j < xs.length ∧ xs[xs.length - 1 - j]? = some x := by
    intro j x hx
    have hj : j < xs.length := by
      rw [← List.length_reverse]
      exact (List.getElem?_eq_some_iff.mp hx).1
    exact ⟨hj, by rw [← List.getElem?_reverse hj, hx]⟩
  refine ⟨List.nodup_reverse.mpr h.nodup, ?_, ?_⟩
  · intro j x hx
    obtain ⟨hj, hx⟩ := hget hx
    rw [h.prev _ x hx]
    by_cases hlast : j + 1 = xs.length
    · rw [List.getElem?_eq_none (by rw [List.length_reverse]; omega)]
      exact if_pos (by omega)
    · rw [List.getElem?_reverse (by omega)]
      unfold before
      rw [if_neg (by omega)]
      congr 1
  · intro j x hx
    obtain ⟨hj, hx⟩ := hget hx
    rw [h.next _ x hx]
    cases j with
    | zero =>
      rw [before_zero]
      exact List.getElem?_eq_none (by omega)
    | succ j =>
      rw [before_succ, List.getElem?_reverse (by omega)]
      congr 1
      omega

lemma walk_none (next : α → Option α) (steps : ℕ) : walk next steps none = some [] := by
  cases steps <;> rfl

lemma Linked.walk_drop (h : Linked next prev xs) :
    ∀ steps i, xs.length ≤ i + steps → walk next steps xs[i]? = some (xs.drop i) := by
  intro steps
  induction steps with
  | zero =>
    intro i hi
    rw [List.getElem?_eq_none (by omega), List.drop_eq_nil_of_le (by omega), walk_none]
  | succ steps ih =>
    intro i hi
    by_cases hlt : i < xs.length
    · rw [List.drop_eq_getElem_cons hlt, List.getElem?_eq_getElem hlt]
      have hnext := h.next i _ (List.getElem?_eq_getElem hlt)
      rw [walk, hnext, ih (i + 1) (by omega), Option.map_some]
    · rw [List.getElem?_eq_none (by omega), List.drop_eq_nil_of_le (by omega), walk_none]

lemma Linked.walk_head (h : Linked next prev xs) : walk next xs.length xs.head? = some xs := by
  have hwalk := h.walk_drop xs.length 0 (by omega)
  rw [List.drop_zero, ← List.head?_eq_getElem?] at hwalk
  exact hwalk

lemma Linked.walk_last (h : Linked next prev xs) :
    walk prev xs.length xs.getLast? = some xs.reverse := by
  have hwalk := h.reverse.walk_head
  rw [List.length_reverse, List.head?_reverse] at hwalk
  exact hwalk

/-! A walk over finitely many nodes ends unless it reaches a node again. -/

lemma walk_isSome_succ {steps : ℕ} {y : α} (hnext : next x = some y)
    (h : (walk next steps (some x)).isSome) :
    ∃ steps', steps = steps' + 1 ∧ (walk next steps' (some y)).isSome := by
  cases steps with
  | zero => cases h
  | succ steps' =>
    rw [walk, hnext, Option.isSome_map] at h
    exact ⟨steps', rfl, h⟩

lemma not_walk_of_cycle (h : Relation.TransGen (fun a b => next a = some b) x x) (steps : ℕ) :
    ¬ (walk next steps (some x)).isSome := by
  induction steps generalizing x with
  | zero => exact Bool.false_ne_true
  | succ steps ih =>
    intro hsome
    obtain ⟨y, hxy, hyx⟩ := Relation.TransGen.head'_iff.mp h
    obtain ⟨steps', hsteps, hy⟩ := walk_isSome_succ hxy hsome
    obtain rfl : steps = steps' := by omega
    exact ih (Relation.TransGen.tail' hyx hxy) hy

theorem walk_ends_iff [Finite α] (next : α → Option α) (x : α) :
    (∃ steps, (walk next steps (some x)).isSome) ↔
      ¬∃ a, Relation.ReflTransGen (fun a b => next a = some b) x a ∧
        Relation.TransGen (fun a b => next a = some b) a a := by
  constructor
  · rintro ⟨steps, hsome⟩ ⟨a, hreach, hcycle⟩
    induction hreach using Relation.ReflTransGen.head_induction_on generalizing steps with
    | refl => exact not_walk_of_cycle hcycle steps hsome
    | head hstep _ ih =>
      obtain ⟨steps', -, hsome⟩ := walk_isSome_succ hstep hsome
      exact ih steps' hsome
  · intro hacyclic
    -- the reachable nodes, ordered by what comes after them
    let after : {a // Relation.ReflTransGen (fun a b => next a = some b) x a} →
        {a // Relation.ReflTransGen (fun a b => next a = some b) x a} → Prop :=
      fun a b => Relation.TransGen (fun a b => next a = some b) b.1 a.1
    have : IsTrans _ after := ⟨fun a b c hab hbc => hbc.trans hab⟩
    have : Std.Irrefl after := ⟨fun a ha => hacyclic ⟨a.1, a.2, ha⟩⟩
    have hwf : WellFounded after := Finite.wellFounded_of_trans_of_irrefl after
    have hends : ∀ a : {a // Relation.ReflTransGen (fun a b => next a = some b) x a},
        ∃ steps, (walk next steps (some a.1)).isSome := by
      intro a
      induction a using hwf.induction with
      | h a ih =>
        cases hnext : next a.1 with
        | none => exact ⟨1, by rw [walk, hnext, walk_none]; rfl⟩
        | some b =>
          obtain ⟨steps, hsome⟩ := ih ⟨b, a.2.tail hnext⟩ (.single hnext)
          exact ⟨steps + 1, by rwa [walk, hnext, Option.isSome_map]⟩
    exact hends ⟨x, .refl⟩

end Rules

end OISA.Lib

/-!
## Singly linked sequences

`Chained next xs` says that the links of the nodes of `xs` describe this sequence, and that the
last one has no link.
-/

namespace OISA.Lib

variable {α : Type}

def Chained (next : α → Option α) : List α → Prop
  | [] => True
  | a :: rest => next a = rest.head? ∧ Chained next rest

section Rules

variable {next next' : α → Option α} {xs : List α} {a b : α}

lemma Chained.congr (h : Chained next xs) (heq : ∀ x ∈ xs, next' x = next x) :
    Chained next' xs := by
  induction xs with
  | nil => trivial
  | cons x xs ih =>
    obtain ⟨hx, hrest⟩ := h
    refine ⟨(heq x List.mem_cons_self).trans hx, ih hrest ?_⟩
    intro y hy
    exact heq y (List.mem_cons_of_mem x hy)

lemma Chained.next_getLast (h : Chained next xs) (hlast : xs.getLast? = some b) :
    next b = none := by
  induction xs with
  | nil => cases hlast
  | cons x xs ih =>
    obtain ⟨hx, hrest⟩ := h
    cases xs with
    | nil =>
      obtain rfl := Option.some.inj hlast
      exact hx
    | cons y ys =>
      rw [List.getLast?_cons_cons] at hlast
      exact ih hrest hlast

lemma Chained.walk (h : Chained next xs) : walk next xs.length xs.head? = some xs := by
  induction xs with
  | nil => rfl
  | cons x xs ih =>
    obtain ⟨hx, hrest⟩ := h
    rw [List.length_cons, List.head?_cons, Lib.walk, hx, ih hrest, Option.map_some]

variable [DecidableEq α]

lemma Chained.append (h : Chained next xs) (hlast : xs.getLast? = some b) (hnodup : xs.Nodup)
    (ha : a ∉ xs) (hnext : next a = none) :
    Chained (Function.update next b (some a)) (xs ++ [a]) := by
  induction xs with
  | nil => cases hlast
  | cons x xs ih =>
    obtain ⟨hx, hrest⟩ := h
    rw [List.mem_cons, not_or] at ha
    obtain ⟨hxs, hnodup⟩ := List.nodup_cons.mp hnodup
    cases xs with
    | nil =>
      obtain rfl := Option.some.inj hlast
      refine ⟨Function.update_self .., ?_, trivial⟩
      exact (Function.update_of_ne ha.1 _ _).trans hnext
    | cons y ys =>
      rw [List.getLast?_cons_cons] at hlast
      have hne : x ≠ b := by
        rintro rfl
        exact hxs (List.mem_of_getLast? hlast)
      refine ⟨?_, ih hrest hlast hnodup ha.2⟩
      rw [Function.update_of_ne hne, hx]
      rfl

lemma Chained.cons (h : Chained next xs) (ha : a ∉ xs) :
    Chained (Function.update next a xs.head?) (a :: xs) := by
  refine ⟨Function.update_self .., h.congr ?_⟩
  intro x hx
  apply Function.update_of_ne
  rintro rfl
  exact ha hx

end Rules

end OISA.Lib
