import OISA.Lib.Linked
import OISA.Proofs.MemoryRefinement
import OISA.X86.AddressSpace

/-!
# Robust futex lists

`ExitRobustList` follows the pointers of a list in guest memory until one of them is null or
points to the head again.
-/

namespace OISA.X86.AddressSpace

open OISA.Lib OISA.Memory

variable {m : Memory} {head lock_entry next : Word} {fuel : ℕ}

/-- A read does not change the memory. -/
theorem read_state (m : Memory) (a : Word) (buffer : List UInt8) :
    (m.Read a buffer).state = m := by
  refine transfer_invariant (P := (· = m)) ?_ buffer rfl
  rintro a buffer s rfl
  unfold AccessAtPageBoundary
  split
  · rfl
  · cases hpage : s.getPage a with
    | some page =>
      have hkeeps : (page.access s.safe .Read a buffer).state = page := by
        by_cases hdenied : page.Denied s.safe .Read
        · rw [Page.access_denied hdenied]
          rfl
        · rw [Page.access_read hdenied (.inl rfl)]
          rfl
      exact (congrArg (fun p => s.setPage a (some p)) hkeeps).trans (setPage_self hpage)
    | none =>
      dsimp only
      split <;> rfl

def followed (m : Memory) (head lock_entry : Word) : Option Word :=
  match readLockEntry m lock_entry with
  | .error _ => none
  | .ok next => if next = 0 ∨ next = head then none else some next

def Leads (m : Memory) (head lock_entry next : Word) : Prop :=
  readLockEntry m lock_entry = .ok next ∧ next ≠ 0 ∧ next ≠ head

lemma followed_eq_some_iff : followed m head lock_entry = some next ↔ Leads m head lock_entry next := by
  unfold followed Leads
  cases readLockEntry m lock_entry with
  | error e => simp
  | ok y =>
    by_cases hstop : y = 0 ∨ y = head
    · simp only [if_pos hstop]
      refine iff_of_false (fun h => nomatch h) ?_
      rintro ⟨hy, hzero, hhead⟩
      obtain rfl := Except.ok.inj hy
      exact hstop.elim hzero hhead
    · simp only [if_neg hstop]
      rw [not_or] at hstop
      constructor
      · intro h
        obtain rfl := Option.some.inj h
        exact ⟨rfl, hstop⟩
      · rintro ⟨hy, -⟩
        rw [Except.ok.inj hy]

lemma exitRobustListLoop_isSome (fuel : ℕ) (lock_entry : Word) :
    (exitRobustListLoop m head fuel lock_entry).isSome =
      (walk (followed m head) fuel (some lock_entry)).isSome := by
  induction fuel generalizing lock_entry with
  | zero => rfl
  | succ fuel ih =>
    rw [exitRobustListLoop, walk, Option.isSome_map, followed]
    cases readLockEntry m lock_entry with
    | error e =>
      dsimp only
      rw [walk_none]
      rfl
    | ok y =>
      dsimp only
      split
      · rw [walk_none]
        rfl
      · exact ih y

/-- The walk from the head comes into a cycle that leaves the head out. -/
def RunsIntoCycle (m : Memory) (head : Word) : Prop :=
  ∃ lock_entry, Relation.ReflTransGen (Leads m head) head lock_entry ∧
    Relation.TransGen (Leads m head) lock_entry lock_entry

/-- The walk raises an error of the memory or returns, unless it runs into a cycle. -/
theorem exitRobustList_ends_iff (m : Memory) (head : Word) :
    (∃ fuel, (exitRobustList fuel m head).isSome) ↔ head = 0 ∨ ¬ RunsIntoCycle m head := by
  by_cases hzero : head = 0
  · refine iff_of_true ⟨0, ?_⟩ (.inl hzero)
    rw [exitRobustList, if_pos hzero]
    rfl
  · have hleads : Leads m head = fun a b => followed m head a = some b := by
      funext a b
      exact propext followed_eq_some_iff.symm
    have : Finite Word := Finite.of_injective BitVec.toFin fun _ _ h => BitVec.toFin_inj.mp h
    simp only [exitRobustList, if_neg hzero, exitRobustListLoop_isSome]
    rw [walk_ends_iff, or_iff_right hzero, RunsIntoCycle, hleads]

def cyclicPage : Memory where
  pages tag :=
    if tag = 0x1000 then
      some ⟨0x1000, readWrite, some fun i => if i % 16 < 2 then 0x10 else 0, by decide⟩
    else none

theorem exitRobustList_cycle :
    ¬ ∀ (m : Memory) (head : Word), ∃ fuel, (exitRobustList fuel m head).isSome := by
  intro h
  rcases (exitRobustList_ends_iff cyclicPage 0x1000).mp (h _ _) with hzero | hnone
  · revert hzero
    decide
  · apply hnone
    have hfirst : readLockEntry cyclicPage 0x1000 = .ok 0x1010 := by rfl
    have hsecond : readLockEntry cyclicPage 0x1010 = .ok 0x1010 := by rfl
    exact ⟨0x1010, .single ⟨hfirst, by decide, by decide⟩, .single ⟨hsecond, by decide, by decide⟩⟩

end OISA.X86.AddressSpace
