import OISA.Lib.Linked
import OISA.Lib.Runs
import OISA.Util.List

/-!
# The circular vector holds a sequence

The element at an index of the sequence is in the slot that many places after the head.
-/

namespace OISA.Util.list_t

open OISA.Lib

section Rings

variable {n h k l : ℕ}

lemma slot_inj (hk : k < n) (hl : l < n) (heq : (h + k) % n = (h + l) % n) : k = l :=
  (Nat.ModEq.add_left_cancel' h heq).eq_of_lt_of_lt hk hl

lemma slot_succ (h k n : ℕ) : ((h + k) % n + 1) % n = (h + (k + 1)) % n := by
  rw [Nat.mod_add_mod, Nat.add_assoc]

lemma slot_pred (hn : 0 < n) (h k : ℕ) : ((h + (k + 1)) % n + n - 1) % n = (h + k) % n := by
  rw [Nat.add_sub_assoc hn, Nat.mod_add_mod, show h + (k + 1) + (n - 1) = h + k + n by omega,
    Nat.add_mod_right]

lemma slot_before (hh : h < n) (k : ℕ) :
    ((h + n - 1) % n + (k + 1)) % n = (h + k) % n := by
  rw [Nat.mod_add_mod, show h + n - 1 + (k + 1) = h + k + n by omega, Nat.add_mod_right]

end Rings

section Loops

variable (list : list_t) {h a m : ℕ}

lemma shiftLoop_next (hn : a + m < list.size) (elem : ℕ → ℕ) :
    ∃ elem', shiftLoop (fun pos => (pos + 1) % list.size) m ((h + a) % list.size) elem =
        ((h + (a + m)) % list.size, elem') ∧
      ∀ k < list.size, elem' ((h + k) % list.size) =
        if a ≤ k ∧ k < a + m then elem ((h + (k + 1)) % list.size)
        else elem ((h + k) % list.size) := by
  induction m generalizing a elem with
  | zero =>
    refine ⟨elem, rfl, ?_⟩
    intro k _
    rw [if_neg (by omega)]
  | succ m ih =>
    obtain ⟨elem', heq, helem⟩ := ih (a := a + 1) (by omega) (Function.update elem
      ((h + a) % list.size) (elem ((h + (a + 1)) % list.size)))
    refine ⟨elem', ?_, ?_⟩
    · rw [shiftLoop, slot_succ, heq, show a + 1 + m = a + (m + 1) by omega]
    · intro k hk
      rw [helem k hk]
      have hne : ∀ l < list.size, l ≠ a → (h + l) % list.size ≠ (h + a) % list.size :=
        fun l hl hla heq => hla (slot_inj hl (by omega) heq)
      by_cases hka : k = a
      · rw [hka, if_neg (by omega), Function.update_self, if_pos (by omega)]
      · rw [Function.update_of_ne (hne k hk hka)]
        by_cases hin : a + 1 ≤ k ∧ k < a + 1 + m
        · rw [if_pos hin, if_pos (by omega), Function.update_of_ne (hne _ (by omega) (by omega))]
        · rw [if_neg hin, if_neg (by omega)]

lemma shiftLoop_before (hn : a + m < list.size) (elem : ℕ → ℕ) :
    ∃ elem', shiftLoop (inListBefore list) m ((h + (a + m)) % list.size) elem =
        ((h + a) % list.size, elem') ∧
      ∀ k < list.size, elem' ((h + k) % list.size) =
        if a < k ∧ k ≤ a + m then elem ((h + (k - 1)) % list.size)
        else elem ((h + k) % list.size) := by
  induction m generalizing elem with
  | zero =>
    refine ⟨elem, rfl, ?_⟩
    intro k _
    rw [if_neg (by omega)]
  | succ m ih =>
    obtain ⟨elem', heq, helem⟩ := ih (by omega) (Function.update elem
      ((h + (a + (m + 1))) % list.size) (elem ((h + (a + m)) % list.size)))
    have hbefore : inListBefore list ((h + (a + (m + 1))) % list.size) =
        (h + (a + m)) % list.size := slot_pred (by omega) h (a + m)
    refine ⟨elem', ?_, ?_⟩
    · rw [shiftLoop, hbefore, heq]
    · intro k hk
      rw [helem k hk]
      have hne : ∀ l < list.size, l ≠ a + (m + 1) →
          (h + l) % list.size ≠ (h + (a + (m + 1))) % list.size :=
        fun l hl hla heq => hla (slot_inj hl hn heq)
      by_cases hka : k = a + (m + 1)
      · rw [hka, if_neg (by omega), Function.update_self, if_pos (by omega)]
        rfl
      · rw [Function.update_of_ne (hne k hk hka)]
        by_cases hin : a < k ∧ k ≤ a + m
        · rw [if_pos hin, if_pos (by omega), Function.update_of_ne (hne _ (by omega) (by omega))]
        · rw [if_neg hin, if_neg (by omega)]

lemma shiftLeftLoop_spec (hn : a + m < list.size) (elem : ℕ → ℕ) :
    ∀ k < list.size,
      shiftLeftLoop list m ((h + (a + 1)) % list.size) elem ((h + k) % list.size) =
        if a ≤ k ∧ k < a + m then elem ((h + (k + 1)) % list.size)
        else elem ((h + k) % list.size) := by
  induction m generalizing a elem with
  | zero =>
    intro k _
    rw [if_neg (by omega)]
    rfl
  | succ m ih =>
    intro k hk
    have hbefore : inListBefore list ((h + (a + 1)) % list.size) = (h + a) % list.size :=
      slot_pred (by omega) h a
    rw [shiftLeftLoop, hbefore, slot_succ, ih (a := a + 1) (by omega) _ k hk]
    have hne : ∀ l < list.size, l ≠ a → (h + l) % list.size ≠ (h + a) % list.size :=
      fun l hl hla heq => hla (slot_inj hl (by omega) heq)
    by_cases hka : k = a
    · rw [hka, if_neg (by omega), Function.update_self, if_pos (by omega)]
    · rw [Function.update_of_ne (hne k hk hka)]
      by_cases hin : a + 1 ≤ k ∧ k < a + 1 + m
      · rw [if_pos hin, if_pos (by omega), Function.update_of_ne (hne _ (by omega) (by omega))]
      · rw [if_neg hin, if_neg (by omega)]

lemma growLoop_spec (index : ℕ) (nelem : ℕ → ℕ) (k : ℕ) :
    growLoop list m ((list.head + index) % list.size) index nelem k =
      if index ≤ k ∧ k < index + m then list.elem ((list.head + k) % list.size) else nelem k := by
  induction m generalizing index nelem with
  | zero =>
    rw [if_neg (by omega)]
    rfl
  | succ m ih =>
    rw [growLoop, slot_succ, ih]
    by_cases hk : k = index
    · rw [hk, if_neg (by omega), Function.update_self, if_pos (by omega)]
    · rw [Function.update_of_ne hk]
      by_cases hin : index + 1 ≤ k ∧ k < index + 1 + m
      · rw [if_pos hin, if_pos (by omega)]
      · rw [if_neg hin, if_neg (by omega)]

end Loops

section Sequences

variable {list list' : list_t} {xs : List ℕ} {index elem : ℕ}

def slot (list : list_t) (k : ℕ) : ℕ := (list.head + k) % list.size

structure Holds (list : list_t) (xs : List ℕ) : Prop where
  pos : 0 < list.size
  head : list.head < list.size
  room : list.count ≤ list.size
  tail : list.tail = list.slot list.count
  count : list.count = xs.length
  elems : ∀ k < list.count, xs[k]? = some (list.elem (list.slot k))

lemma Holds.error (h : Holds list xs) (error_code : list_err_t) :
    Holds { list with error_code := error_code } xs :=
  ⟨h.pos, h.head, h.room, h.tail, h.count, h.elems⟩

lemma slot_ne {k l : ℕ} (hk : k < list.size) (hl : l < list.size)
    (hne : k ≠ l) : list.slot k ≠ list.slot l :=
  fun heq => hne (slot_inj hk hl heq)

lemma Holds.grow (h : Holds list xs) :
    (growIfFull list = none ∧ 2 ^ 31 ≤ list.size * 2) ∨
    ∃ list', growIfFull list = some list' ∧ Holds list' xs ∧ list'.count < list'.size ∧
      list'.count = list.count := by
  have hpos := h.pos
  have hroom := h.room
  unfold growIfFull
  by_cases hfull : list.count = list.size
  · rw [if_pos hfull]
    unfold list_grow
    by_cases hsize : 2 ^ 31 ≤ list.size * 2
    · exact Or.inl ⟨if_pos hsize, hsize⟩
    · refine Or.inr ⟨_, if_neg hsize, ⟨?_, ?_, ?_, ?_, h.count, ?_⟩, ?_, rfl⟩
      · exact Nat.mul_pos hpos (by decide)
      · exact Nat.mul_pos hpos (by decide)
      · simp only
        omega
      · simp only [slot]
        rw [Nat.zero_add, Nat.mod_eq_of_lt (by omega)]
      · intro k hk
        have hcopy := growLoop_spec list (m := list.count) 0 (fun _ => 0) k
        rw [Nat.add_zero, Nat.mod_eq_of_lt h.head, if_pos (by simp only at hk; omega)] at hcopy
        simp only [slot] at hk ⊢
        rw [Nat.zero_add, Nat.mod_eq_of_lt (by omega), hcopy]
        exact h.elems k hk
      · simp only
        omega
  · rw [if_neg hfull]
    exact Or.inr ⟨list, rfl, h, by omega, rfl⟩

lemma Holds.add (h : Holds list xs) (elem : ℕ) :
    (list_add list elem = none ∧ 2 ^ 31 ≤ list.size * 2) ∨
    ∃ list', list_add list elem = some list' ∧ Holds list' (xs ++ [elem]) ∧
      list'.error_code = .LIST_ERR_OK := by
  cases h.grow with
  | inl hnone =>
    refine Or.inl ⟨?_, hnone.2⟩
    rw [list_add, hnone.1]
    rfl
  | inr hsome =>
    obtain ⟨grown, hgrow, h, hroom, -⟩ := hsome
    refine Or.inr ⟨{ grown with
      elem := Function.update grown.elem grown.tail elem
      tail := (grown.tail + 1) % grown.size
      count := grown.count + 1
      error_code := .LIST_ERR_OK }, by rw [list_add, hgrow]; rfl,
      ⟨h.pos, h.head, hroom, ?_, ?_, ?_⟩, rfl⟩
    · simp only [h.tail]
      exact slot_succ _ _ _
    · rw [List.length_append, ← h.count]
      rfl
    · intro k hk
      simp only at hk
      by_cases hlast : k = grown.count
      · subst hlast
        have hself : Function.update grown.elem grown.tail elem (grown.slot grown.count) =
            elem := by
          rw [h.tail, Function.update_self]
        exact (by rw [h.count, List.getElem?_concat_length] : _ = some elem).trans
          (congrArg some hself.symm)
      · have hother : Function.update grown.elem grown.tail elem (grown.slot k) =
            grown.elem (grown.slot k) := by
          rw [h.tail, Function.update_of_ne (slot_ne (by omega) hroom hlast)]
        rw [List.getElem?_append_left (by rw [← h.count]; omega), h.elems k (by omega)]
        exact congrArg some hother.symm

lemma Holds.makeRoom (h : Holds list xs) (hroom : list.count < list.size)
    (hindex : index ≤ list.count) :
    (makeRoom list index).size = list.size ∧ (makeRoom list index).count = list.count ∧
      (makeRoom list index).head < list.size ∧
      (makeRoom list index).tail = (makeRoom list index).slot (list.count + 1) ∧
      ∀ k ≤ list.count, k ≠ index → (makeRoom list index).elem ((makeRoom list index).slot k) =
        if k < index then list.elem (list.slot k) else list.elem (list.slot (k - 1)) := by
  have hpos := h.pos
  unfold Util.makeRoom
  by_cases hright : list.count / 2 < index
  · rw [if_pos hright]
    obtain ⟨elem', heq, helem⟩ := shiftLoop_before list (h := list.head) (a := index)
      (m := list.count - index) (by omega) list.elem
    rw [show index + (list.count - index) = list.count by omega] at heq helem
    have htail : list.tail = (list.head + list.count) % list.size := h.tail
    rw [← htail] at heq
    refine ⟨rfl, rfl, h.head, ?_, ?_⟩
    · simp only [h.tail]
      exact slot_succ _ _ _
    · intro k hk hne
      simp only [heq]
      refine (helem k (by omega)).trans ?_
      by_cases hlt : k < index
      · rw [if_neg (by omega), if_pos hlt]
        rfl
      · rw [if_pos (by omega), if_neg hlt]
        rfl
  · rw [if_neg hright]
    have hslot : ∀ k, (inListBefore list list.head + (k + 1)) % list.size = list.slot k := fun k =>
      slot_before h.head k
    have hhead : list.head = (inListBefore list list.head + (0 + 1)) % list.size := by
      rw [hslot, slot, Nat.add_zero, Nat.mod_eq_of_lt h.head]
    have helem := shiftLeftLoop_spec list (h := inListBefore list list.head) (a := 0) (m := index)
      (by omega) list.elem
    rw [← hhead] at helem
    refine ⟨rfl, rfl, Nat.mod_lt _ hpos, ?_, ?_⟩
    · exact h.tail.trans (hslot list.count).symm
    · intro k hk hne
      refine (helem k (by omega)).trans ?_
      by_cases hlt : k < index
      · rw [if_pos (by omega), if_pos hlt, hslot]
      · obtain ⟨k, rfl⟩ : ∃ l, k = l + 1 := ⟨k - 1, by omega⟩
        rw [if_neg (by omega), if_neg hlt, hslot]
        rfl

/-- An element is inserted at an index. -/
lemma Holds.insert (h : Holds list xs) (hindex : index ≤ list.count) (elem : ℕ) :
    (list_insert list index elem = none ∧ 2 ^ 31 ≤ list.size * 2) ∨
    ∃ list', list_insert list index elem = some list' ∧ Holds list' (xs.insertIdx index elem) ∧
      list'.error_code = .LIST_ERR_OK := by
  cases h.grow with
  | inl hnone =>
    refine Or.inl ⟨?_, hnone.2⟩
    rw [list_insert, if_neg (by omega), hnone.1]
    rfl
  | inr hsome =>
    obtain ⟨grown, hgrow, h, hroom, hsame⟩ := hsome
    rw [← hsame] at hindex
    obtain ⟨hsize, hcount, hhead, htail, helems⟩ := h.makeRoom hroom hindex
    refine Or.inr ⟨{ Util.makeRoom grown index with
      elem := Function.update (Util.makeRoom grown index).elem
        ((Util.makeRoom grown index).slot index) elem
      count := (Util.makeRoom grown index).count + 1
      error_code := .LIST_ERR_OK }, ?_, ⟨?_, ?_, ?_, ?_, ?_, ?_⟩, rfl⟩
    · rw [list_insert, if_neg (by omega), hgrow]
      rfl
    · exact hsize ▸ h.pos
    · exact hsize ▸ hhead
    · simp only [hcount, hsize]
      exact hroom
    · simp only [hcount]
      exact htail
    · simp only [hcount]
      rw [List.length_insertIdx_of_le_length (h.count ▸ hindex), h.count]
    · intro k hk
      simp only [hcount] at hk
      have hle : index ≤ xs.length := h.count ▸ hindex
      rw [getElem?_insertIdx_ite hle]
      by_cases hki : k = index
      · have hself : Function.update (Util.makeRoom grown index).elem
            ((Util.makeRoom grown index).slot index) elem ((Util.makeRoom grown index).slot index) =
              elem := Function.update_self ..
        rw [if_neg (by omega), if_pos hki, hki]
        exact congrArg some hself.symm
      · have hne : (Util.makeRoom grown index).slot k ≠ (Util.makeRoom grown index).slot index :=
          slot_ne (by omega) (by omega) hki
        have hother : Function.update (Util.makeRoom grown index).elem
            ((Util.makeRoom grown index).slot index) elem ((Util.makeRoom grown index).slot k) =
              (Util.makeRoom grown index).elem ((Util.makeRoom grown index).slot k) :=
          Function.update_of_ne hne _ _
        refine Eq.trans ?_ (congrArg some hother.symm)
        rw [helems k (by omega) hki]
        by_cases hlt : k < index
        · rw [if_pos hlt, if_pos hlt]
          exact h.elems k (by omega)
        · rw [if_neg hlt, if_neg hki, if_neg hlt]
          exact h.elems (k - 1) (by omega)

/-- Taking an index out moves the elements after it by one place. -/
lemma Holds.takeOut (h : Holds list xs) (hindex : index < list.count) :
    (takeOut list index).size = list.size ∧ (takeOut list index).count = list.count ∧
      (takeOut list index).head < list.size ∧
      (takeOut list index).tail = (takeOut list index).slot (list.count - 1) ∧
      ∀ k < list.count - 1, (takeOut list index).elem ((takeOut list index).slot k) =
        if k < index then list.elem (list.slot k) else list.elem (list.slot (k + 1)) := by
  have hpos := h.pos
  have hroom := h.room
  unfold Util.takeOut
  by_cases hright : list.count / 2 < index
  · obtain ⟨elem', heq, helem⟩ := shiftLoop_next list (h := list.head) (a := index)
      (m := list.count - index - 1) (by omega) list.elem
    rw [show index + (list.count - index - 1) = list.count - 1 by omega] at heq helem
    simp only [if_pos hright, heq]
    refine ⟨trivial, trivial, h.head, ?_, ?_⟩
    · rw [h.tail, slot, show list.count = list.count - 1 + 1 by omega]
      exact slot_pred hpos _ _
    · intro k hk
      have hne : (list.head + k) % list.size ≠ (list.head + (list.count - 1)) % list.size :=
        fun heq => absurd (slot_inj (by omega) (by omega) heq) (by omega)
      refine (Function.update_of_ne hne _ _).trans ((helem k (by omega)).trans ?_)
      by_cases hlt : k < index
      · rw [if_neg (by omega), if_pos hlt]
        rfl
      · rw [if_pos (by omega), if_neg hlt]
        rfl
  · obtain ⟨elem', heq, helem⟩ := shiftLoop_before list (h := list.head) (a := 0)
      (m := index) (by omega) list.elem
    rw [Nat.zero_add] at heq helem
    have hslot : ∀ k, ((list.head + 1) % list.size + k) % list.size = list.slot (k + 1) := by
      intro k
      rw [Nat.mod_add_mod, slot, Nat.add_assoc, Nat.add_comm 1 k]
    have hhead : list.slot 0 = list.head := by
      rw [slot, Nat.add_zero, Nat.mod_eq_of_lt h.head]
    simp only [if_neg hright, heq]
    refine ⟨trivial, trivial, Nat.mod_lt _ hpos, ?_, ?_⟩
    · rw [h.tail]
      refine Eq.trans ?_ (hslot (list.count - 1)).symm
      rw [Nat.sub_add_cancel (by omega)]
    · intro k hk
      have hne : list.slot (k + 1) ≠ list.head := by
        rw [← hhead]
        exact slot_ne (by omega) hpos (Nat.succ_ne_zero k)
      refine (congrArg (Function.update elem' list.head 0) (hslot k)).trans ?_
      rw [Function.update_of_ne hne]
      refine (helem (k + 1) (by omega)).trans ?_
      by_cases hlt : k < index
      · rw [if_pos (by omega), if_pos hlt]
        rfl
      · rw [if_neg (by omega), if_neg hlt]
        rfl

lemma Holds.remove_at (h : Holds list xs) (hindex : index < list.count) {x : ℕ}
    (hx : xs[index]? = some x) :
    ∃ list', list_remove_at list index = (list', x) ∧ Holds list' (xs.eraseIdx index) ∧
      list'.error_code = .LIST_ERR_OK := by
  obtain ⟨hsize, hcount, hhead, htail, helems⟩ := h.takeOut hindex
  refine ⟨{ Util.takeOut list index with
    count := (Util.takeOut list index).count - 1
    error_code := .LIST_ERR_OK }, ?_, ⟨?_, ?_, ?_, ?_, ?_, ?_⟩, rfl⟩
  · have hat : list.elem (list.slot index) = x :=
      Option.some.inj ((h.elems index hindex).symm.trans hx)
    rw [list_remove_at, if_neg (by omega)]
    exact congrArg (_, ·) hat
  · exact hsize ▸ h.pos
  · exact hsize ▸ hhead
  · simp only [hcount, hsize]
    have := h.room
    omega
  · simp only [hcount]
    exact htail
  · simp only [hcount]
    rw [List.length_eraseIdx_of_lt (h.count ▸ hindex), h.count]
  · intro k hk
    simp only [hcount] at hk
    refine Eq.trans ?_ (congrArg some (helems k hk).symm)
    rw [List.getElem?_eraseIdx]
    by_cases hlt : k < index
    · rw [if_pos hlt, if_pos hlt]
      exact h.elems k (by omega)
    · rw [if_neg hlt, if_neg hlt]
      exact h.elems (k + 1) (by omega)

lemma Holds.get (h : Holds list xs) (hindex : index < list.count) {x : ℕ}
    (hx : xs[index]? = some x) :
    list_get list index = ({ list with error_code := .LIST_ERR_OK }, x) := by
  have hat : list.elem (list.slot index) = x :=
    Option.some.inj ((h.elems index hindex).symm.trans hx)
  rw [list_get, if_neg (by omega)]
  rw [slot, Nat.add_comm] at hat
  exact congrArg (_, ·) hat

lemma Holds.set (h : Holds list xs) (hindex : index < list.count) (elem : ℕ) :
    Holds (list_set list index elem) (xs.set index elem) ∧
      (list_set list index elem).error_code = .LIST_ERR_OK := by
  have hroom := h.room
  rw [list_set, if_neg (by omega)]
  refine ⟨⟨h.pos, h.head, h.room, h.tail, ?_, ?_⟩, rfl⟩
  · rw [List.length_set]
    exact h.count
  · intro k hk
    simp only at hk
    have hslot : (index + list.head) % list.size = list.slot index := by rw [slot, Nat.add_comm]
    show (xs.set index elem)[k]? =
      some (Function.update list.elem ((index + list.head) % list.size) elem (list.slot k))
    rw [List.getElem?_set, hslot]
    by_cases hki : index = k
    · rw [if_pos hki, if_pos (h.count ▸ hki ▸ hk), hki, Function.update_self]
    · rw [if_neg hki, Function.update_of_ne (slot_ne (by omega) (by omega) (Ne.symm hki))]
      exact h.elems k hk

lemma Holds.indexLoop (h : Holds list xs) (x steps i : ℕ) (hi : i + steps = list.count) :
    indexLoop list x steps i (list.slot i) =
      if x ∈ xs.drop i then some (i + (xs.drop i).idxOf x) else none := by
  induction steps generalizing i with
  | zero =>
    rw [List.drop_eq_nil_of_le (by rw [← h.count]; omega)]
    rfl
  | succ steps ih =>
    have hlt : i < xs.length := by
      rw [← h.count]
      omega
    have hat : list.elem (list.slot i) = xs[i] := by
      have := h.elems i (by omega)
      rw [List.getElem?_eq_getElem hlt] at this
      exact (Option.some.inj this).symm
    have hnext : (list.slot i + 1) % list.size = list.slot (i + 1) := slot_succ _ _ _
    rw [Util.indexLoop, hat, hnext, ih (i + 1) (by omega), List.drop_eq_getElem_cons hlt]
    by_cases hx : xs[i] = x
    · rw [if_pos hx, hx, if_pos List.mem_cons_self, List.idxOf_cons_self]
      rfl
    · rw [if_neg hx, List.idxOf_cons_ne _ hx]
      by_cases hmem : x ∈ xs.drop (i + 1)
      · rw [if_pos hmem, if_pos (List.mem_cons_of_mem _ hmem)]
        congr 1
        omega
      · have hnot : x ∉ xs[i] :: xs.drop (i + 1) := by
          rw [List.mem_cons, not_or]
          exact ⟨fun heq => hx heq.symm, hmem⟩
        rw [if_neg hmem, if_neg hnot]

lemma Holds.index_of (h : Holds list xs) (x : ℕ) : list_index_of list x =
    if x ∈ xs then ({ list with error_code := .LIST_ERR_OK }, (xs.idxOf x : ℤ))
    else ({ list with error_code := .LIST_ERR_NOT_FOUND }, -1) := by
  have hloop := h.indexLoop x list.count 0 (Nat.zero_add _)
  have hhead : list.slot 0 = list.head := by
    rw [slot, Nat.add_zero, Nat.mod_eq_of_lt h.head]
  rw [hhead, List.drop_zero, Nat.zero_add] at hloop
  rw [list_index_of, hloop]
  by_cases hmem : x ∈ xs
  · rw [if_pos hmem, if_pos hmem]
  · rw [if_neg hmem, if_neg hmem]

def SameBut (list list' : list_t) : Prop := ∃ elem, list' = { list with elem := elem }

lemma swaps_swapElem (h : Holds list xs) : Swaps ELEM swapElem (SameBut list) list.count := by
  rintro _ i j ⟨elem, rfl⟩ hi hj
  refine ⟨⟨_, rfl⟩, ?_⟩
  intro k hk
  have hroom := h.room
  have hne : ∀ l < list.count, k ≠ l →
      (k + list.head) % list.size ≠ (l + list.head) % list.size := by
    intro l hl hkl heq
    rw [Nat.add_comm k, Nat.add_comm l] at heq
    exact hkl (slot_inj (by omega) (by omega) heq)
  show swapAt elem ((i + list.head) % list.size) ((j + list.head) % list.size)
    ((k + list.head) % list.size) = _
  by_cases hki : k = i
  · rw [hki, swapAt_left, swapAt_left]
    rfl
  · by_cases hkj : k = j
    · rw [hkj, swapAt_right, swapAt_right]
      rfl
    · rw [swapAt_of_ne _ (hne i hi hki) (hne j hj hkj), swapAt_of_ne _ hki hkj]
      rfl

lemma Holds.eq_map (h : Holds list xs) : xs = (List.range list.count).map (ELEM list) := by
  apply List.ext_getElem?
  intro k
  rw [List.getElem?_map]
  by_cases hk : k < list.count
  · rw [h.elems k hk, List.getElem?_range hk, Option.map_some, ELEM, slot, Nat.add_comm]
  · rw [List.getElem?_eq_none (by rw [← h.count]; omega),
      List.getElem?_eq_none (by rw [List.length_range]; omega), Option.map_none]

lemma Holds.sort (h : Holds list xs) {comp : ℕ → ℕ → ℤ} (hcomp : TotalPreorder comp) :
    ∃ list' xs', list_sort list comp = some list' ∧ Holds list' xs' ∧ xs'.Perm xs ∧
      xs'.Pairwise (fun x y => comp x y ≤ 0) ∧ list'.error_code = list.error_code := by
  rw [list_sort]
  by_cases hzero : list.count = 0
  · have hnil : xs = [] := List.length_eq_zero_iff.mp (h.count ▸ hzero)
    refine ⟨list, xs, if_pos hzero, h, .refl _, ?_, rfl⟩
    rw [hnil]
    exact .nil
  · rw [if_neg hzero]
    obtain ⟨list', hsort, ⟨elem, rfl⟩, hrearranges, hsorted⟩ :=
      quickSort_spec hcomp (swaps_swapElem h) (fun lo hi hle => ⟨hle, le_refl hi⟩) list.count
        (⟨list.elem, rfl⟩ : SameBut list list) (Nat.zero_le (list.count - 1)) (by omega) (by omega)
    refine ⟨_, (List.range list.count).map (ELEM { list with elem := elem }), hsort,
      ⟨h.pos, h.head, h.room, h.tail, by simp, ?_⟩, ?_, ?_, rfl⟩
    · intro k hk
      simp only at hk
      rw [List.getElem?_map, List.getElem?_range hk, Option.map_some, ELEM, slot, Nat.add_comm]
    · exact h.eq_map ▸ hrearranges.perm
    · rw [List.pairwise_map]
      apply List.pairwise_lt_range.imp_of_mem
      intro a b _ hb hlt
      have := List.mem_range.mp hb
      exact hsorted a b (Nat.zero_le a) hlt (by omega)

end Sequences

section Runs

/-- The element at an index, if it is in range -/
def elementAt (xs : List ℕ) (index : ℤ) : Option ℕ := if index < 0 then none else xs[index.toNat]?

def Gives (xs : List ℕ) (element : Option ℕ) (error : list_err_t) (xs' : List ℕ)
    (t : List ℕ × list_err_t) (result : ℤ) : Prop :=
  match element with
  | some x => t = (xs', .LIST_ERR_OK) ∧ result = x
  | none => t = (xs, error) ∧ result = 0

/-- What the operations do to a sequence and its error code, and what they return -/
def Acts (op : Op) (xs : List ℕ) (error : list_err_t) (t : List ℕ × list_err_t) (result : ℤ) :
    Prop :=
  match op with
  | .add elem | .push elem | .enqueue elem => t = (xs ++ [elem], .LIST_ERR_OK) ∧ result = 0
  | .get index => Gives xs (elementAt xs index) .LIST_ERR_BOUNDS xs t result
  | .set index elem => result = 0 ∧
    t = if 0 ≤ index ∧ index < xs.length then (xs.set index.toNat elem, .LIST_ERR_OK)
      else (xs, .LIST_ERR_BOUNDS)
  | .insert index elem => result = 0 ∧
    t = if 0 ≤ index ∧ index ≤ xs.length then (xs.insertIdx index.toNat elem, .LIST_ERR_OK)
      else (xs, .LIST_ERR_BOUNDS)
  | .indexOf elem =>
    if elem ∈ xs then t = (xs, .LIST_ERR_OK) ∧ result = xs.idxOf elem
    else t = (xs, .LIST_ERR_NOT_FOUND) ∧ result = -1
  | .removeAt index =>
    Gives xs (elementAt xs index) .LIST_ERR_BOUNDS (xs.eraseIdx index.toNat) t result
  | .remove elem =>
    Gives xs (if elem ∈ xs then some elem else none) .LIST_ERR_NOT_FOUND (xs.erase elem) t result
  | .clear => t = ([], .LIST_ERR_OK) ∧ result = 0
  | .sort comp => t.1.Perm xs ∧ t.1.Pairwise (fun x y => comp x y ≤ 0) ∧ t.2 = error ∧ result = 0
  | .pop => Gives xs xs.getLast? .LIST_ERR_EMPTY xs.dropLast t result
  | .top | .tail => Gives xs xs.getLast? .LIST_ERR_EMPTY xs t result
  | .bottom | .head => Gives xs xs.head? .LIST_ERR_EMPTY xs t result
  | .dequeue => Gives xs xs.head? .LIST_ERR_EMPTY xs.tail t result

/-- The sequence and the error code after some operations and what they returned, the last one
first -/
inductive Serves : List Op → List ℕ → list_err_t → List ℤ → Prop
  | new : Serves [] [] .LIST_ERR_OK []
  | step {ops op xs error t results result} : Serves ops xs error results →
      Acts op xs error t result → Serves (ops ++ [op]) t.1 t.2 (result :: results)

/-- A comparison is by a total preorder. -/
def Total : Op → Prop
  | .sort comp => TotalPreorder comp
  | _ => True

variable {list : list_t} {xs : List ℕ}

lemma elementAt_of_lt (h : Holds list xs) {index : ℤ} (hin : ¬ (index < 0 ∨ list.count ≤ index)) :
    ∃ k : ℕ, index = k ∧ k < list.count ∧ elementAt xs index = some (list.elem (list.slot k)) ∧
      xs[k]? = some (list.elem (list.slot k)) := by
  obtain ⟨k, rfl⟩ : ∃ k : ℕ, index = k := ⟨index.toNat, by omega⟩
  have hk : k < list.count := by omega
  refine ⟨k, rfl, hk, ?_, h.elems k hk⟩
  rw [elementAt, if_neg (by omega)]
  exact h.elems k hk

lemma elementAt_of_out (h : Holds list xs) {index : ℤ} (hout : index < 0 ∨ list.count ≤ index) :
    elementAt xs index = none := by
  unfold elementAt
  by_cases hneg : index < 0
  · rw [if_pos hneg]
  · rw [if_neg hneg, List.getElem?_eq_none]
    rw [← h.count]
    omega

lemma Holds.call_get (h : Holds list xs) (index : ℤ) :
    ∃ list' x, list_get list index = (list', x) ∧ Holds list' xs ∧
      Gives xs (elementAt xs index) .LIST_ERR_BOUNDS xs (xs, list'.error_code) x := by
  by_cases hout : index < 0 ∨ list.count ≤ index
  · refine ⟨_, 0, if_pos hout, h.error _, ?_⟩
    rw [elementAt_of_out h hout]
    exact ⟨rfl, rfl⟩
  · obtain ⟨k, rfl, hk, hsome, hx⟩ := elementAt_of_lt h hout
    refine ⟨_, _, h.get hk hx, h.error _, ?_⟩
    rw [hsome]
    exact ⟨rfl, rfl⟩

lemma Holds.call_remove_at (h : Holds list xs) (index : ℤ) :
    ∃ list' xs' x, list_remove_at list index = (list', x) ∧ Holds list' xs' ∧
      Gives xs (elementAt xs index) .LIST_ERR_BOUNDS (xs.eraseIdx index.toNat)
        (xs', list'.error_code) x := by
  by_cases hout : index < 0 ∨ list.count ≤ index
  · refine ⟨_, xs, 0, if_pos hout, h.error _, ?_⟩
    rw [elementAt_of_out h hout]
    exact ⟨rfl, rfl⟩
  · obtain ⟨k, rfl, hk, hsome, hx⟩ := elementAt_of_lt h hout
    obtain ⟨list', hremove, h', herror⟩ := h.remove_at hk hx
    refine ⟨list', _, _, hremove, h', ?_⟩
    rw [hsome]
    exact ⟨Prod.ext rfl herror, rfl⟩

/-- An operation acts on the sequence, or the size overflows. -/
def Refines (s : Log) (xs : List ℕ) (op : Op) : Prop :=
  (perform op s = none ∧ 2 ^ 31 ≤ s.list.size * 2) ∨
  ∃ s' xs' result, perform op s = some s' ∧ Holds s'.list xs' ∧
    Acts op xs s.list.error_code (xs', s'.list.error_code) result ∧
    s'.results = result :: s.results

variable {s : Log} {op : Op}

lemma refines_of_call (list' : list_t) (xs' : List ℕ) (result : ℤ)
    (hperform : perform op s = some (s.next (list', result))) (h : Holds list' xs')
    (hacts : Acts op xs s.list.error_code (xs', list'.error_code) result) : Refines s xs op :=
  Or.inr ⟨_, xs', result, hperform, h, hacts, rfl⟩

lemma Holds.refines_add (h : Holds s.list xs) (elem : ℕ) : Refines s xs (.add elem) := by
  cases h.add elem with
  | inl hnone => exact Or.inl ⟨by rw [perform, hnone.1]; rfl, hnone.2⟩
  | inr hsome =>
    obtain ⟨list', heq, h', herror⟩ := hsome
    exact refines_of_call list' _ 0 (by rw [perform, heq]; rfl) h' ⟨Prod.ext rfl herror, rfl⟩

lemma Holds.refines_insert (h : Holds s.list xs) (index : ℤ) (elem : ℕ) :
    Refines s xs (.insert index elem) := by
  by_cases hout : index < 0 ∨ s.list.count < index
  · refine refines_of_call { s.list with error_code := .LIST_ERR_BOUNDS } xs 0
      (by rw [perform, list_insert, if_pos hout]; rfl) (h.error _) ⟨rfl, ?_⟩
    rw [if_neg (by rw [← h.count]; omega)]
  · obtain ⟨k, rfl⟩ : ∃ k : ℕ, index = k := ⟨index.toNat, by omega⟩
    cases h.insert (show k ≤ s.list.count by omega) elem with
    | inl hnone => exact Or.inl ⟨by rw [perform, hnone.1]; rfl, hnone.2⟩
    | inr hsome =>
      obtain ⟨list', heq, h', herror⟩ := hsome
      refine refines_of_call list' _ 0 (by rw [perform, heq]; rfl) h' ⟨rfl, ?_⟩
      rw [if_pos (by rw [← h.count]; omega)]
      exact Prod.ext rfl herror

lemma Holds.refines_set (h : Holds s.list xs) (index : ℤ) (elem : ℕ) :
    Refines s xs (.set index elem) := by
  by_cases hout : index < 0 ∨ s.list.count ≤ index
  · refine refines_of_call { s.list with error_code := .LIST_ERR_BOUNDS } xs 0
      (by rw [perform, list_set, if_pos hout]) (h.error _) ⟨rfl, ?_⟩
    rw [if_neg (by rw [← h.count]; omega)]
  · obtain ⟨k, rfl⟩ : ∃ k : ℕ, index = k := ⟨index.toNat, by omega⟩
    obtain ⟨h', herror⟩ := h.set (show k < s.list.count by omega) elem
    refine refines_of_call _ _ 0 rfl h' ⟨rfl, ?_⟩
    rw [if_pos (by rw [← h.count]; omega)]
    exact Prod.ext rfl herror

lemma Holds.refines_indexOf (h : Holds s.list xs) (elem : ℕ) :
    Refines s xs (.indexOf elem) := by
  by_cases hmem : elem ∈ xs
  · refine refines_of_call { s.list with error_code := .LIST_ERR_OK } xs (xs.idxOf elem)
      (by rw [perform, h.index_of, if_pos hmem]) (h.error _) ?_
    rw [Acts, if_pos hmem]
    exact ⟨rfl, rfl⟩
  · refine refines_of_call { s.list with error_code := .LIST_ERR_NOT_FOUND } xs (-1)
      (by rw [perform, h.index_of, if_neg hmem]) (h.error _) ?_
    rw [Acts, if_neg hmem]
    exact ⟨rfl, rfl⟩

lemma Holds.refines_remove (h : Holds s.list xs) (elem : ℕ) : Refines s xs (.remove elem) := by
  by_cases hmem : elem ∈ xs
  · have hlt : xs.idxOf elem < s.list.count := by
      rw [h.count]
      exact List.idxOf_lt_length_of_mem hmem
    obtain ⟨list', hremove, h', herror⟩ :=
      (h.error .LIST_ERR_OK).remove_at hlt (List.getElem?_idxOf hmem)
    rw [List.eraseIdx_idxOf_eq_erase] at h'
    refine refines_of_call list' _ elem ?_ h' ?_
    · rw [perform, list_remove, h.index_of, if_pos hmem]
      exact congrArg (fun call => some (s.next (element call))) hremove
    · rw [Acts, if_pos hmem]
      exact ⟨Prod.ext rfl herror, rfl⟩
  · refine refines_of_call { s.list with error_code := .LIST_ERR_NOT_FOUND } xs 0 ?_ (h.error _) ?_
    · rw [perform, list_remove, h.index_of, if_neg hmem]
      rfl
    · rw [Acts, if_neg hmem]
      exact ⟨rfl, rfl⟩

lemma Holds.refines_get (h : Holds s.list xs) (index : ℤ) : Refines s xs (.get index) := by
  obtain ⟨list', x, hget, h', hgives⟩ := h.call_get index
  exact refines_of_call list' xs x (by rw [perform, hget]; rfl) h' hgives

lemma Holds.refines_removeAt (h : Holds s.list xs) (index : ℤ) :
    Refines s xs (.removeAt index) := by
  obtain ⟨list', xs', x, hremove, h', hgives⟩ := h.call_remove_at index
  exact refines_of_call list' xs' x (by rw [perform, hremove]; rfl) h' hgives

lemma Holds.lt_count (h : Holds list xs) {k x : ℕ} (hx : xs[k]? = some x) : k < list.count := by
  rw [h.count]
  exact (List.getElem?_eq_some_iff.mp hx).1

lemma Holds.refines_end (h : Holds s.list xs) (call : list_t → list_t × ℕ) (k : ℕ)
    (hk : s.list.count ≠ 0 → k < s.list.count) (xs' : List ℕ)
    (hperform : perform op s = some (s.next (element
      (if s.list.count = 0 then ({ s.list with error_code := .LIST_ERR_EMPTY }, 0)
      else call s.list))))
    (hcall : ∀ x, xs[k]? = some x → ∃ list', call s.list = (list', x) ∧ Holds list' xs' ∧
      list'.error_code = .LIST_ERR_OK)
    (hacts : ∀ t result, Gives xs xs[k]? .LIST_ERR_EMPTY xs' t result →
      Acts op xs s.list.error_code t result) : Refines s xs op := by
  by_cases hzero : s.list.count = 0
  · rw [if_pos hzero] at hperform
    refine refines_of_call _ xs 0 hperform (h.error _) (hacts _ _ ?_)
    rw [List.getElem?_eq_none (by rw [← h.count]; omega)]
    exact ⟨rfl, rfl⟩
  · rw [if_neg hzero] at hperform
    have hx := h.elems k (hk hzero)
    obtain ⟨list', heq, h', herror⟩ := hcall _ hx
    rw [heq] at hperform
    refine refines_of_call list' xs' _ hperform h' (hacts _ _ ?_)
    rw [hx]
    exact ⟨Prod.ext rfl herror, rfl⟩

lemma Holds.refines_last (h : Holds s.list xs)
    (hperform : perform op s = some (s.next (element (list_top s.list))))
    (hacts : ∀ t result, Gives xs xs.getLast? .LIST_ERR_EMPTY xs t result →
      Acts op xs s.list.error_code t result) : Refines s xs op := by
  rw [List.getLast?_eq_getElem?, ← h.count] at hacts
  apply h.refines_end (fun list => list_get list (list.count - 1)) (s.list.count - 1)
    (by omega) xs hperform _ hacts
  intro x hx
  have hk : s.list.count - 1 < s.list.count := h.lt_count hx
  have hget := h.get hk hx
  rw [show ((s.list.count - 1 : ℕ) : ℤ) = (s.list.count : ℤ) - 1 by omega] at hget
  exact ⟨_, hget, h.error _, rfl⟩

lemma Holds.refines_first (h : Holds s.list xs)
    (hperform : perform op s = some (s.next (element (list_bottom s.list))))
    (hacts : ∀ t result, Gives xs xs.head? .LIST_ERR_EMPTY xs t result →
      Acts op xs s.list.error_code t result) : Refines s xs op := by
  rw [List.head?_eq_getElem?] at hacts
  apply h.refines_end (fun list => list_get list 0) 0 Nat.pos_of_ne_zero xs hperform _ hacts
  intro x hx
  exact ⟨_, h.get (h.lt_count hx) hx, h.error _, rfl⟩

lemma Holds.refines_pop (h : Holds s.list xs) : Refines s xs .pop := by
  apply h.refines_end (fun list => list_remove_at list (list.count - 1)) (s.list.count - 1)
    (by omega) xs.dropLast rfl
  · intro x hx
    have hk : s.list.count - 1 < s.list.count := h.lt_count hx
    have hremove := h.remove_at hk hx
    rw [show ((s.list.count - 1 : ℕ) : ℤ) = (s.list.count : ℤ) - 1 by omega, h.count,
      List.eraseIdx_length_sub_one, ← h.count] at hremove
    exact hremove
  · intro t result hgives
    rw [h.count, ← List.getLast?_eq_getElem?] at hgives
    exact hgives

lemma Holds.refines_dequeue (h : Holds s.list xs) : Refines s xs .dequeue := by
  apply h.refines_end (fun list => list_remove_at list 0) 0 Nat.pos_of_ne_zero xs.tail rfl
  · intro x hx
    rw [← List.eraseIdx_zero]
    exact h.remove_at (h.lt_count hx) hx
  · intro t result hgives
    rw [← List.head?_eq_getElem?] at hgives
    exact hgives

lemma Holds.perform (h : Holds s.list xs) (htotal : Total op) : Refines s xs op := by
  cases op with
  | add elem => exact h.refines_add elem
  | push elem => exact h.refines_add elem
  | enqueue elem => exact h.refines_add elem
  | get index => exact h.refines_get index
  | set index elem => exact h.refines_set index elem
  | insert index elem => exact h.refines_insert index elem
  | indexOf elem => exact h.refines_indexOf elem
  | removeAt index => exact h.refines_removeAt index
  | remove elem => exact h.refines_remove elem
  | clear =>
    refine refines_of_call (list_clear s.list) [] 0 rfl ⟨h.pos, h.pos, Nat.zero_le _, ?_, rfl,
      fun k hk => absurd hk (Nat.not_lt_zero k)⟩ ⟨rfl, rfl⟩
    exact (Nat.zero_mod _).symm
  | sort comp =>
    obtain ⟨list', xs', hsort, h', hperm, hsorted, herror⟩ := h.sort htotal
    exact refines_of_call list' xs' 0 (by rw [list_t.perform, hsort]; rfl) h'
      ⟨hperm, hsorted, herror, rfl⟩
  | pop => exact h.refines_pop
  | top => exact h.refines_last rfl fun _ _ hgives => hgives
  | tail => exact h.refines_last rfl fun _ _ hgives => hgives
  | bottom => exact h.refines_first rfl fun _ _ hgives => hgives
  | head => exact h.refines_first rfl fun _ _ hgives => hgives
  | dequeue => exact h.refines_dequeue

/-- A new list -/
def new (size : ℕ) : Log := { list := list_create_with_size size }

lemma holds_new (size : ℕ) : Holds (new size).list [] := by
  have hpos : 0 < (list_create_with_size size).size := by
    unfold list_create_with_size
    dsimp only
    split_ifs <;> omega
  exact ⟨hpos, hpos, Nat.zero_le _, (Nat.zero_mod _).symm, rfl,
    fun k hk => absurd hk (Nat.not_lt_zero k)⟩

/-- In every run whose sorts compare by total preorders the list acts as a sequence does: the calls
return what they return on the sequence, and only an overflow of the size stops an operation. -/
theorem run_ringList {size : ℕ} {ops : List Op} (htotal : ∀ op ∈ ops, Total op)
    (hrun : run list_t.perform ops (new size) = some s) :
    ∃ xs, Serves ops xs s.list.error_code s.results ∧ list_count s.list = xs.length ∧
      (∀ index, (list_get s.list index).2 = (elementAt xs index).getD 0) ∧
      (∀ elem, (list_index_of s.list elem).2 = if elem ∈ xs then (xs.idxOf elem : ℤ) else -1) ∧
      ∀ op, Total op → list_t.perform op s = none → 2 ^ 31 ≤ s.list.size * 2 := by
  have hinv : ∃ xs, Serves ops xs s.list.error_code s.results ∧ Holds s.list xs := by
    induction ops using List.reverseRecOn generalizing s with
    | nil =>
      rw [run_nil, Option.some.injEq] at hrun
      subst hrun
      exact ⟨[], .new, holds_new size⟩
    | append_singleton ops op ih =>
      rw [run_append, Option.bind_eq_some_iff] at hrun
      obtain ⟨s₁, hrun, hstep⟩ := hrun
      rw [run_cons, Option.bind_eq_some_iff] at hstep
      obtain ⟨s₂, hstep, hlast⟩ := hstep
      obtain rfl := Option.some.inj hlast
      obtain ⟨xs, hserves, h⟩ := ih (fun op hop => htotal op (List.mem_append_left _ hop)) hrun
      cases h.perform (htotal op (List.mem_append_right _ List.mem_cons_self)) with
      | inl hnone =>
        rw [hnone.1] at hstep
        cases hstep
      | inr hsome =>
        obtain ⟨s', xs', result, hs', h', hacts, hresults⟩ := hsome
        obtain rfl : s₂ = s' := Option.some.inj (hstep.symm.trans hs')
        rw [hresults]
        exact ⟨xs', hserves.step hacts, h'⟩
  obtain ⟨xs, hserves, h⟩ := hinv
  refine ⟨xs, hserves, h.count, ?_, ?_, ?_⟩
  · intro index
    obtain ⟨list', x, hget, -, hgives⟩ := h.call_get index
    rw [hget]
    cases helem : elementAt xs index with
    | none =>
      rw [helem] at hgives
      exact Int.ofNat_inj.mp hgives.2
    | some y =>
      rw [helem] at hgives
      exact Int.ofNat_inj.mp hgives.2
  · intro elem
    rw [h.index_of]
    split_ifs <;> rfl
  · intro op hop hnone
    cases h.perform hop with
    | inl hstops => exact hstops.2
    | inr hsome =>
      obtain ⟨s', xs', result, hs', -⟩ := hsome
      rw [hnone] at hs'
      cases hs'

end Runs

section Examples

def wrapped : List Op :=
  [.enqueue 5, .enqueue 7, .enqueue 1, .dequeue, .enqueue 9, .insert 0 4, .insert 2 6, .removeAt 4,
    .sort (fun x y => (x : ℤ) - y), .get 0]

example : (run list_t.perform wrapped (new 0)).map (·.results) =
    some [1, 0, 9, 0, 0, 0, 5, 0, 0, 0] := by
  decide +kernel

theorem run_ringList_wrapped : ∃ s xs, run list_t.perform wrapped (new 0) = some s ∧
    Serves wrapped xs s.list.error_code s.results := by
  have hsome : (run list_t.perform wrapped (new 0)).isSome = true := by decide +kernel
  have hrun := (Option.some_get hsome).symm
  have htotal : ∀ op ∈ wrapped, Total op := by
    intro op hop
    simp only [wrapped, List.mem_cons, List.not_mem_nil, or_false] at hop
    rcases hop with rfl | rfl | rfl | rfl | rfl | rfl | rfl | rfl | rfl | rfl <;>
      first | exact trivial | exact totalPreorder_sub
  obtain ⟨xs, hserves, -⟩ := run_ringList htotal hrun
  exact ⟨_, xs, hrun, hserves⟩

end Examples

end OISA.Util.list_t
