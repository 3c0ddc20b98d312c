import Mathlib.Tactic

/-!
# Timelines

A timeline has a value at each time, and changes by taking a new value from some time on.
-/

namespace OISA.Lib

/-- The timeline with the value `v` from time `t` on. -/
def Timeline.set (f : ℕ → ℤ) (t : ℕ) (v : ℤ) : ℕ → ℤ := fun i => if t ≤ i then v else f i

def Timeline.total (f : ℕ → ℤ) (n : ℕ) : ℤ := ∑ i ∈ Finset.range n, f i

namespace Timeline

variable {f : ℕ → ℤ} {t n : ℕ} {v : ℤ}

lemma set_of_le (h : t ≤ n) : set f t v n = v := if_pos h

lemma set_of_lt (h : n < t) : set f t v n = f n := if_neg (not_le.mpr h)

lemma total_set (h : n ≤ t) : total (set f t v) n = total f n :=
  Finset.sum_congr rfl fun _ hi => set_of_lt ((Finset.mem_range.mp hi).trans_le h)

lemma total_of_constant (hle : n ≤ t) (h : ∀ i, n ≤ i → f i = v) :
    total f t = total f n + v * ((t : ℤ) - n) := by
  induction t, hle using Nat.le_induction with
  | base => rw [sub_self, mul_zero, add_zero]
  | succ t hle ih =>
    rw [total, Finset.sum_range_succ, ← total, ih, h t hle]
    push_cast
    ring

end Timeline

end OISA.Lib
