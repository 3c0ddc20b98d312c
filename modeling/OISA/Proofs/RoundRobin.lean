import OISA.Dram.Channel
import OISA.Lib.RoundRobin

/-!
# Fairness of the DRAM round robin

The position of `RankBankRoundRobin` goes round the banks of a channel, rank by rank, so
`FindNext` is a scan in cyclic order: it finds a bank with a queued command whenever there is
one, and a bank that keeps a queued command waits for at most one round of calls, whatever
happens to the queues between the calls.
-/

namespace OISA.Dram.Channel

open Lib

variable (num_ranks num_banks : ℕ)

def calling (scheduler : Scheduler) (queues : ℕ → ℕ → Bank) : Channel :=
  { new num_ranks num_banks scheduler with banks := queues }

def schedulers (queues : ℕ → ℕ → ℕ → Bank) : ℕ → Scheduler
  | 0 => .RankBankRoundRobin 0 0
  | n + 1 => (calling num_ranks num_banks (schedulers queues n) (queues n)).FindNext.1

/-- The bank that each of a sequence of calls returns. -/
def returned (queues : ℕ → ℕ → ℕ → Bank) (n : ℕ) : Option (ℕ × ℕ) :=
  (calling num_ranks num_banks (schedulers num_ranks num_banks queues n) (queues n)).FindNext.2

variable {num_ranks num_banks}

lemma nextPosition_succ {ch : Channel} {rank bank : ℕ} (hrank : rank < ch.num_ranks)
    (hbank : bank + 1 ≠ ch.num_banks) : ch.nextPosition (rank, bank) = (rank, bank + 1) := by
  unfold nextPosition
  dsimp only
  rw [if_neg hbank]
  exact if_neg hrank.ne

lemma nextPosition_rank {ch : Channel} {rank bank : ℕ} (hbank : bank + 1 = ch.num_banks)
    (hrank : rank + 1 ≠ ch.num_ranks) : ch.nextPosition (rank, bank) = (rank + 1, 0) := by
  unfold nextPosition
  dsimp only
  rw [if_pos hbank]
  exact if_neg hrank

lemma nextPosition_first {ch : Channel} {rank bank : ℕ} (hbank : bank + 1 = ch.num_banks)
    (hrank : rank + 1 = ch.num_ranks) : ch.nextPosition (rank, bank) = (0, 0) := by
  unfold nextPosition
  dsimp only
  rw [if_pos hbank]
  exact if_pos hrank

variable (num_ranks num_banks) in
/-- The banks of a channel in the order of the round robin. -/
def bankCycle : CyclicOrder (ℕ × ℕ) where
  length := num_banks * num_ranks
  carrier := {place | place.1 < num_ranks ∧ place.2 < num_banks}
  next := (new num_ranks num_banks (.RankBankRoundRobin 0 0)).nextPosition
  number place := place.2 + num_banks * place.1
  number_lt := by
    rintro ⟨rank, bank⟩ ⟨hrank, hbank⟩
    calc bank + num_banks * rank < num_banks + num_banks * rank := Nat.add_lt_add_right hbank _
      _ = num_banks * (rank + 1) := by ring
      _ ≤ num_banks * num_ranks := Nat.mul_le_mul_left _ hrank
  number_injOn := by
    rintro ⟨rank, bank⟩ ⟨-, hbank⟩ ⟨rank', bank'⟩ ⟨-, hbank'⟩ heq
    change bank < num_banks at hbank
    change bank' < num_banks at hbank'
    have hmod := congrArg (· % num_banks) heq
    have hdiv := congrArg (· / num_banks) heq
    dsimp only at hmod hdiv
    rw [Nat.add_mul_mod_self_left, Nat.add_mul_mod_self_left, Nat.mod_eq_of_lt hbank,
      Nat.mod_eq_of_lt hbank'] at hmod
    rw [Nat.add_mul_div_left _ _ (by omega), Nat.add_mul_div_left _ _ (by omega),
      Nat.div_eq_of_lt hbank, Nat.div_eq_of_lt hbank', zero_add, zero_add] at hdiv
    rw [hmod, hdiv]
  next_mem := by
    rintro ⟨rank, bank⟩ ⟨hrank, hbank⟩
    change rank < num_ranks at hrank
    change bank < num_banks at hbank
    by_cases hwrap : bank + 1 = num_banks
    · by_cases hlast : rank + 1 = num_ranks
      · rw [nextPosition_first hwrap hlast]
        exact ⟨Nat.zero_lt_of_lt hrank, Nat.zero_lt_of_lt hbank⟩
      · rw [nextPosition_rank hwrap hlast]
        exact ⟨lt_of_le_of_ne hrank hlast, Nat.zero_lt_of_lt hbank⟩
    · rw [nextPosition_succ hrank hwrap]
      exact ⟨hrank, lt_of_le_of_ne hbank hwrap⟩
  number_next := by
    rintro ⟨rank, bank⟩ ⟨hrank, hbank⟩
    change rank < num_ranks at hrank
    change bank < num_banks at hbank
    have hround : num_banks * (rank + 1) ≤ num_banks * num_ranks :=
      Nat.mul_le_mul_left _ hrank
    by_cases hwrap : bank + 1 = num_banks
    · by_cases hlast : rank + 1 = num_ranks
      · rw [nextPosition_first hwrap hlast, ← hlast, Nat.mul_add, Nat.mul_one, Nat.mul_zero]
        dsimp only
        rw [add_right_comm, hwrap, add_comm num_banks, Nat.mod_self]
      · have hnext : num_banks * (rank + 1 + 1) ≤ num_banks * num_ranks :=
          Nat.mul_le_mul_left _ (by omega)
        rw [Nat.mul_succ] at hnext
        rw [nextPosition_rank hwrap hlast]
        dsimp only
        rw [Nat.mul_succ] at *
        rw [Nat.mod_eq_of_lt (by omega)]
        omega
    · rw [Nat.mul_succ] at hround
      rw [nextPosition_succ hrank hwrap]
      dsimp only
      rw [Nat.mod_eq_of_lt (by omega)]
      omega

lemma roundRobin_eq_scan (scheduler : Scheduler) (queues : ℕ → ℕ → Bank) (n : ℕ)
    (current : ℕ × ℕ) :
    (calling num_ranks num_banks scheduler queues).roundRobin n current =
      scan (bankCycle num_ranks num_banks).next
        (fun place => !(queues place.1 place.2).command_queue.isEmpty) n current := by
  induction n generalizing current with
  | zero => rfl
  | succ n ih =>
    have hnext : (calling num_ranks num_banks scheduler queues).nextPosition current =
        (bankCycle num_ranks num_banks).next current := rfl
    have hbanks : (calling num_ranks num_banks scheduler queues).banks = queues := rfl
    rw [roundRobin, scan, hnext, hbanks, ih]
    cases (queues _ _).command_queue.isEmpty with
    | false => rfl
    | true => rfl

/-- The position of the scheduler before each call. -/
def cursor (num_ranks num_banks : ℕ) (queues : ℕ → ℕ → ℕ → Bank) : ℕ → ℕ × ℕ
  | 0 => (0, 0)
  | n + 1 => (scan (bankCycle num_ranks num_banks).next
      (fun place => !(queues n place.1 place.2).command_queue.isEmpty)
      (bankCycle num_ranks num_banks).length (cursor num_ranks num_banks queues n)).1

variable (queues : ℕ → ℕ → ℕ → Bank)

lemma schedulers_eq (n : ℕ) : schedulers num_ranks num_banks queues n =
    .RankBankRoundRobin (cursor num_ranks num_banks queues n).1
      (cursor num_ranks num_banks queues n).2 := by
  induction n with
  | zero => rfl
  | succ n ih =>
    rw [schedulers, ih]
    unfold FindNext
    dsimp only [calling, new]
    rw [cursor, ← roundRobin_eq_scan (.RankBankRoundRobin (cursor num_ranks num_banks queues n).1
      (cursor num_ranks num_banks queues n).2)]
    rfl

lemma returned_eq (n : ℕ) : returned num_ranks num_banks queues n =
    (scan (bankCycle num_ranks num_banks).next
      (fun place => !(queues n place.1 place.2).command_queue.isEmpty)
      (bankCycle num_ranks num_banks).length (cursor num_ranks num_banks queues n)).2 := by
  rw [returned, schedulers_eq]
  unfold FindNext
  dsimp only [calling, new]
  rw [← roundRobin_eq_scan (.RankBankRoundRobin (cursor num_ranks num_banks queues n).1
    (cursor num_ranks num_banks queues n).2)]
  rfl

/-- **Round robin**: each call returns a bank with a queued command unless there is none, and a
bank that keeps a queued command is returned within one round of calls. -/
theorem FindNext_fair (num_ranks num_banks : ℕ) (queues : ℕ → ℕ → ℕ → Bank) :
    (∀ n, (∀ rank bank, returned num_ranks num_banks queues n = some (rank, bank) →
        rank < num_ranks ∧ bank < num_banks ∧ (queues n rank bank).command_queue ≠ []) ∧
      (returned num_ranks num_banks queues n = none ↔
        ∀ rank < num_ranks, ∀ bank < num_banks, (queues n rank bank).command_queue = [])) ∧
    ∀ n, ∀ rank < num_ranks, ∀ bank < num_banks,
      (∀ k < num_ranks * num_banks, (queues (n + k) rank bank).command_queue ≠ []) →
      ∃ k < num_ranks * num_banks,
        returned num_ranks num_banks queues (n + k) = some (rank, bank) := by
  by_cases hnone : num_ranks = 0 ∨ num_banks = 0
  · -- without banks the loop does not run
    have hlength : (bankCycle num_ranks num_banks).length = 0 := by
      rcases hnone with h | h
      · change num_banks * num_ranks = 0
        rw [h, Nat.mul_zero]
      · change num_banks * num_ranks = 0
        rw [h, Nat.zero_mul]
    have hreturned : ∀ n, returned num_ranks num_banks queues n = none := fun n => by
      rw [returned_eq, hlength]
      rfl
    refine ⟨fun n => ⟨fun rank bank hsome => ?_, fun _ rank hrank bank hbank => ?_, fun _ =>
      hreturned n⟩, fun n rank hrank bank hbank _ => ?_⟩
    · rw [hreturned] at hsome
      cases hsome
    · omega
    · omega
  · have hmem : ∀ n, cursor num_ranks num_banks queues n ∈
        (bankCycle num_ranks num_banks).carrier :=
      CyclicOrder.cursor_mem (c := bankCycle num_ranks num_banks)
        (fun n place => !(queues n place.1 place.2).command_queue.isEmpty) _
        (show 0 < num_ranks ∧ 0 < num_banks by omega) fun _ => rfl
    refine ⟨fun n => ⟨fun rank bank hsome => ?_, ?_⟩, fun n rank hrank bank hbank hkept => ?_⟩
    · rw [returned_eq] at hsome
      obtain ⟨⟨hrank, hbank⟩, hready⟩ := (CyclicOrder.scan_sound _ (hmem n)).2 _ hsome
      refine ⟨hrank, hbank, fun hempty => ?_⟩
      rw [Bool.not_eq_true', List.isEmpty_eq_false_iff] at hready
      exact hready hempty
    · rw [returned_eq, CyclicOrder.scan_eq_none_iff (hmem n)]
      constructor
      · intro hall rank hrank bank hbank
        have hempty := hall (rank, bank) ⟨hrank, hbank⟩
        rwa [Bool.not_eq_false', List.isEmpty_iff] at hempty
      · rintro hall ⟨rank, bank⟩ ⟨hrank, hbank⟩
        rw [Bool.not_eq_false', List.isEmpty_iff]
        exact hall rank hrank bank hbank
    · obtain ⟨k, hk, hfound⟩ := CyclicOrder.scans_fair (c := bankCycle num_ranks num_banks)
        (fun n place => !(queues n place.1 place.2).command_queue.isEmpty) _ (hmem 0)
        (fun _ => rfl) (q := (rank, bank)) ⟨hrank, hbank⟩ n fun k hk => by
          rw [Bool.not_eq_true', List.isEmpty_eq_false_iff]
          exact hkept k (by rw [mul_comm]; exact hk)
      refine ⟨k, by rw [mul_comm]; exact hk, ?_⟩
      rw [returned_eq]
      exact hfound

end OISA.Dram.Channel
