import Mathlib.Tactic

/-!
# Probing a ring of slots

`probe stop n steps idx` looks at the slots of a ring of `n` from `idx` on, for at most `steps`
steps, and gives the first one where `stop` holds.
-/

namespace OISA.Lib

def probe (stop : ℕ → Bool) (n : ℕ) : ℕ → ℕ → Option ℕ
  | 0, _ => none
  | steps + 1, idx => if stop idx then some idx else probe stop n steps ((idx + 1) % n)

section Rules

variable {stop stop' : ℕ → Bool} {n steps idx : ℕ}

lemma ring_succ (idx d n : ℕ) : ((idx + 1) % n + d) % n = (idx + (d + 1)) % n := by
  rw [Nat.mod_add_mod, Nat.add_assoc, Nat.add_comm 1 d]

lemma probe_eq_of_first (hidx : idx < n) {d : ℕ} (hd : d < steps)
    (hstop : stop ((idx + d) % n)) (hfirst : ∀ e < d, ¬ stop ((idx + e) % n)) :
    probe stop n steps idx = some ((idx + d) % n) := by
  induction steps generalizing idx d with
  | zero => omega
  | succ steps ih =>
    rw [probe]
    have hzero : (idx + 0) % n = idx := Nat.mod_eq_of_lt hidx
    cases d with
    | zero =>
      rw [hzero] at hstop ⊢
      rw [if_pos hstop]
    | succ d =>
      have hnot := hfirst 0 (Nat.succ_pos d)
      rw [hzero] at hnot
      rw [if_neg hnot, ← ring_succ idx d n]
      apply ih (Nat.mod_lt _ (by omega)) (by omega)
      · rw [ring_succ]
        exact hstop
      · intro e he
        rw [ring_succ]
        exact hfirst (e + 1) (by omega)

lemma exists_distance (hidx : idx < n) {j : ℕ} (hj : j < n) : ∃ d < n, (idx + d) % n = j := by
  refine ⟨(j + n - idx) % n, Nat.mod_lt _ (by omega), ?_⟩
  rw [Nat.add_mod_mod, show idx + (j + n - idx) = j + n by omega, Nat.add_mod_right,
    Nat.mod_eq_of_lt hj]

lemma exists_probe (hidx : idx < n) (h : ∃ j < n, stop j) :
    ∃ d < n, stop ((idx + d) % n) ∧ (∀ e < d, ¬ stop ((idx + e) % n)) ∧
      ∀ steps, d < steps → probe stop n steps idx = some ((idx + d) % n) := by
  obtain ⟨j, hj, hstop⟩ := h
  obtain ⟨d, hd, rfl⟩ := exists_distance hidx hj
  have hex : ∃ d, stop ((idx + d) % n) := ⟨d, hstop⟩
  refine ⟨Nat.find hex, (Nat.find_min' hex hstop).trans_lt hd, Nat.find_spec hex,
    fun e he => Nat.find_min hex he, ?_⟩
  intro steps hsteps
  exact probe_eq_of_first hidx hsteps (Nat.find_spec hex) (fun e he => Nat.find_min hex he)

lemma probe_eq_none (hidx : idx < n) (h : ∀ j < n, ¬ stop j) (steps : ℕ) :
    probe stop n steps idx = none := by
  induction steps generalizing idx with
  | zero => rfl
  | succ steps ih =>
    rw [probe, if_neg (h idx hidx)]
    exact ih (Nat.mod_lt _ (by omega))

lemma probe_lt (hidx : idx < n) {j : ℕ} (h : probe stop n steps idx = some j) : j < n := by
  induction steps generalizing idx with
  | zero => cases h
  | succ steps ih =>
    rw [probe] at h
    by_cases hstop : stop idx
    · rw [if_pos hstop, Option.some.injEq] at h
      exact h ▸ hidx
    · rw [if_neg hstop] at h
      exact ih (Nat.mod_lt _ (by omega)) h

end Rules

end OISA.Lib
