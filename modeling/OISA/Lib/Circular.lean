import Mathlib.Tactic

/-!
# Circular arrays

`Circular xs head queue` says that an array holds a queue from `head` on, with the positions
counted round the end.
-/

namespace OISA.Lib

variable {α : Type}

def overwrite (xs : List α) (k : ℕ) (ys : List α) : List α :=
  xs.take k ++ ys ++ xs.drop (k + ys.length)

@[simp] lemma length_overwrite {xs ys : List α} {k : ℕ} (h : k + ys.length ≤ xs.length) :
    (overwrite xs k ys).length = xs.length := by
  unfold overwrite
  rw [List.length_append, List.length_append, List.length_take, List.length_drop]
  omega

lemma getElem?_overwrite {xs ys : List α} {k : ℕ} (h : k + ys.length ≤ xs.length) (i : ℕ) :
    (overwrite xs k ys)[i]? = if k ≤ i ∧ i < k + ys.length then ys[i - k]? else xs[i]? := by
  have htake : (xs.take k).length = k := by
    rw [List.length_take]
    omega
  unfold overwrite
  rw [List.append_assoc]
  by_cases hlow : i < k
  · rw [List.getElem?_append_left (by omega), List.getElem?_take_of_lt hlow, if_neg (by omega)]
  · rw [List.getElem?_append_right (by omega), htake]
    by_cases hin : i < k + ys.length
    · rw [List.getElem?_append_left (by omega), if_pos (by omega)]
    · rw [List.getElem?_append_right (by omega), List.getElem?_drop, if_neg (by omega)]
      congr 1
      omega

lemma mod_eq_ite {i n : ℕ} (h : i < 2 * n) : i % n = if i < n then i else i - n := by
  by_cases hlt : i < n
  · rw [if_pos hlt, Nat.mod_eq_of_lt hlt]
  · rw [if_neg hlt, Nat.mod_eq_sub_mod (not_lt.mp hlt), Nat.mod_eq_of_lt (by omega)]

structure Circular (xs : List α) (head : ℕ) (queue : List α) : Prop where
  head_lt : head < xs.length
  length_le : queue.length ≤ xs.length
  holds : ∀ i < queue.length, xs[(head + i) % xs.length]? = queue[i]?

namespace Circular

variable {xs queue : List α} {head : ℕ}

lemma nil (h : head < xs.length) : Circular xs head [] where
  head_lt := h
  length_le := Nat.zero_le _
  holds i hi := absurd hi (Nat.not_lt_zero i)

/-- The front of the queue in two pieces. -/
theorem take_eq (h : Circular xs head queue) {n : ℕ} (hn : n ≤ queue.length) :
    (xs.drop head).take (min (xs.length - head) n) ++
      xs.take (n - min (xs.length - head) n) = queue.take n := by
  obtain ⟨hhead, hle, hholds⟩ := h
  apply List.ext_getElem?
  intro i
  have hfirst : ((xs.drop head).take (min (xs.length - head) n)).length =
      min (xs.length - head) n := by
    rw [List.length_take, List.length_drop]
    omega
  by_cases hi : i < n
  · rw [List.getElem?_take_of_lt hi, ← hholds i (by omega), mod_eq_ite (by omega)]
    by_cases hright : i < min (xs.length - head) n
    · rw [List.getElem?_append_left (by omega), List.getElem?_take_of_lt hright,
        List.getElem?_drop, if_pos (by omega)]
    · rw [List.getElem?_append_right (by omega), hfirst, List.getElem?_take_of_lt (by omega),
        if_neg (by omega)]
      congr 1
      omega
  · rw [List.getElem?_eq_none, List.getElem?_eq_none]
    · rw [List.length_take]
      omega
    · rw [List.length_append, hfirst, List.length_take]
      omega

/-- The head moves past the front. -/
theorem drop (h : Circular xs head queue) {n : ℕ} (hn : n ≤ queue.length) :
    Circular xs ((head + n) % xs.length) (queue.drop n) where
  head_lt := Nat.mod_lt _ (Nat.zero_lt_of_lt h.head_lt)
  length_le := by
    have hle := h.length_le
    rw [List.length_drop]
    omega
  holds i hi := by
    rw [List.length_drop] at hi
    rw [Nat.mod_add_mod, add_assoc, h.holds (n + i) (by omega), List.getElem?_drop]

/-- Elements behind the back in two pieces. -/
theorem append (h : Circular xs head queue) (ys : List α)
    (hys : queue.length + ys.length ≤ xs.length) {tail : ℕ}
    (htail : tail = (head + queue.length) % xs.length) :
    Circular (overwrite (overwrite xs tail (ys.take (min (xs.length - tail) ys.length))) 0
      (ys.drop (min (xs.length - tail) ys.length))) head (queue ++ ys) := by
  obtain ⟨hhead, hle, hholds⟩ := h
  have htail' := mod_eq_ite (i := head + queue.length) (n := xs.length) (by omega)
  rw [← htail] at htail'
  have hlt : tail < xs.length := htail ▸ Nat.mod_lt _ (by omega)
  have hright : (ys.take (min (xs.length - tail) ys.length)).length =
      min (xs.length - tail) ys.length := by
    rw [List.length_take]
    omega
  have hleft : (ys.drop (min (xs.length - tail) ys.length)).length =
      ys.length - min (xs.length - tail) ys.length := List.length_drop
  have hfits : tail + (ys.take (min (xs.length - tail) ys.length)).length ≤ xs.length := by omega
  have hfits' : 0 + (ys.drop (min (xs.length - tail) ys.length)).length ≤
      (overwrite xs tail (ys.take (min (xs.length - tail) ys.length))).length := by
    rw [length_overwrite hfits, hleft]
    omega
  have hlength := (length_overwrite hfits').trans (length_overwrite hfits)
  refine ⟨by rw [hlength]; exact hhead, by rw [hlength, List.length_append]; exact hys,
    fun i hi => ?_⟩
  rw [List.length_append] at hi
  rw [hlength, getElem?_overwrite hfits', getElem?_overwrite hfits, hright, hleft]
  have hmod := mod_eq_ite (i := head + i) (n := xs.length) (by omega)
  by_cases hold : i < queue.length
  · -- a position of the queue is in neither piece
    rw [List.getElem?_append_left hold, ← hholds i hold]
    split_ifs at hmod htail' <;> rw [if_neg (by omega), if_neg (by omega)]
  · rw [List.getElem?_append_right (not_lt.mp hold)]
    by_cases hpiece : tail + (i - queue.length) < xs.length
    · have hpos : (head + i) % xs.length = tail + (i - queue.length) := by
        split_ifs at hmod htail' <;> omega
      rw [hpos, if_neg (by omega), if_pos (by omega), Nat.add_sub_cancel_left,
        List.getElem?_take_of_lt (by omega)]
    · have hpos : (head + i) % xs.length = tail + (i - queue.length) - xs.length := by
        split_ifs at hmod htail' <;> omega
      rw [hpos, if_pos (by omega), List.getElem?_drop]
      congr 1
      omega

/-- The two pieces of the array, in front of anything else. -/
theorem unroll (h : Circular xs head queue) (zs : List α) :
    Circular (xs.drop head ++ xs.take head ++ zs) 0 queue := by
  obtain ⟨hhead, hle, hholds⟩ := h
  have hlength : (xs.drop head ++ xs.take head).length = xs.length := by
    rw [List.length_append, List.length_drop, List.length_take]
    omega
  refine ⟨?_, ?_, fun i hi => ?_⟩
  · rw [List.length_append]
    omega
  · rw [List.length_append]
    omega
  · rw [zero_add, Nat.mod_eq_of_lt (by rw [List.length_append]; omega),
      List.getElem?_append_left (by omega), ← hholds i hi, mod_eq_ite (by omega)]
    by_cases hfirst : head + i < xs.length
    · rw [if_pos hfirst, List.getElem?_append_left (by rw [List.length_drop]; omega),
        List.getElem?_drop]
    · rw [if_neg hfirst, List.getElem?_append_right (by rw [List.length_drop]; omega),
        List.length_drop, List.getElem?_take_of_lt (by omega)]
      congr 1
      omega

end Circular

end OISA.Lib
