import OISA.Proofs.ManagerRuns

/-!
# Checks of addresses

What `Free` rejects, and which addresses `isValidAddress` takes for valid.
-/

namespace OISA.Memory.Manager

open OISA.Lib

variable {m₀ : Memory} {s s₁ s' : Manager} {c d hole : Chunk} {fuel address stale : ℕ}

section Free

/-- `Free` throws and leaves chunks, holes and memory as they are. -/
def Rejects (fuel : ℕ) (s : Manager) (address stale : ℕ) : Prop :=
  ∃ message s', s.freeOutcome fuel address stale = .thrown message s' ∧
    s'.chunks = s.chunks ∧ s'.holes = s.holes ∧ s'.memory = s.memory

/-- An address of no pointer is rejected exactly when it is not the start of a hole. -/
theorem rejects_iff (fuel : ℕ) (s : Manager) (address stale : ℕ)
    (hpointer : ∀ c ∈ s.chunks, c.is_allocated = true → c.address ≠ address) :
    Rejects fuel s address stale ↔ ∀ c ∈ s.chunks, c.is_allocated = false → c.address ≠ address := by
  unfold Rejects freeOutcome
  cases hfind : s.chunks.find? fun c => c.address = address with
  | none =>
    have hnone : ∀ c ∈ s.chunks, c.address ≠ address := by
      intro c hc
      have hnot := List.find?_eq_none.mp hfind c hc
      rwa [decide_eq_true_eq] at hnot
    constructor
    · intro _ c hc _
      exact hnone c hc
    · intro _
      exact ⟨_, s, rfl, rfl, rfl, rfl⟩
  | some it =>
    have hmem := List.mem_of_find?_eq_some hfind
    have hstart := List.find?_some hfind
    rw [decide_eq_true_eq] at hstart
    constructor
    · rintro ⟨message, s', heq, -⟩
      dsimp only at heq
      cases hfree : s.free fuel address stale with
      | none =>
        rw [hfree] at heq
        cases heq
      | some s₁ =>
        rw [hfree] at heq
        cases heq
    · intro hnot
      cases hit : it.is_allocated with
      | true => exact absurd hstart (hpointer it hmem hit)
      | false => exact absurd hstart (hnot it hmem hit)

lemma Heap.merging (hheap : Heap m₀ s) (hc : c ∈ s.chunks) (hfree : c.is_allocated = false) :
    Merging m₀ s c := by
  refine ⟨hheap.toTiling, hc, hfree, ?_, ?_⟩
  · intro d hd e he _ _
    exact hheap.separated d hd e he
  · intro d hd _
    exact hheap.parts d hd

lemma Heap.mergeHoles_hole (hheap : Heap m₀ s) (hc : c ∈ s.chunks) (hfree : c.is_allocated = false)
    (hchunks : s'.chunks = s.chunks) : s'.MergeHoles fuel c stale = some s' := by
  have hm := hheap.merging hc hfree
  have hlayout := hheap.toTiling.layout
  have hfind := hlayout.lowerBound_start hc
  have hforward : s'.mergeForward c = some s' := by
    unfold Manager.mergeForward
    rw [hchunks, hfind, Option.bind_some]
    cases hnext : nextItem Chunk.address s.chunks c with
    | none => rfl
    | some d =>
      have hcond : (isInSamePage c.address d.address && !d.is_allocated) = false := by
        by_contra hmerge
        rw [Bool.not_eq_false, Bool.and_eq_true, isInSamePage_iff, Bool.not_eq_true'] at hmerge
        have htouch := hm.next_touches hnext hmerge.1
        have hd := (hlayout.nextItem_some hnext).1
        exact hheap.separated c hc d hd hfree hmerge.2 htouch hmerge.1
      simp only [hcond, Bool.false_eq_true, if_false]
  have hback : s'.mergeBack c.address stale = some (s', c.address) := by
    unfold Manager.mergeBack
    rw [hchunks, hfind, Option.bind_some]
    cases hprev : prevItem Chunk.address s.chunks c with
    | none => rfl
    | some d =>
      have hcond : (isInSamePage c.address d.address && !d.is_allocated) = false := by
        by_contra hmerge
        rw [Bool.not_eq_false, Bool.and_eq_true, isInSamePage_iff, Bool.not_eq_true'] at hmerge
        have htouch := hm.prev_touches hprev hmerge.1
        have hd := (hlayout.prevItem_some hprev).1
        exact hheap.separated d hd c hc hmerge.2 hfree htouch hmerge.1.symm
      simp only [hcond, Bool.false_eq_true, if_false]
  have hrelease : s'.releasePage fuel c.address = some s' := by
    have hsize : PageSize.toNat = 4096 := rfl
    unfold Manager.releasePage
    rw [hchunks, hfind, Option.bind_some, hsize, if_neg (hheap.parts c hc hfree)]
  unfold MergeHoles
  rw [hfree]
  simp only [Bool.false_eq_true, if_false, hforward, hback, hrelease, Option.bind_some]

lemma eq_of_perm {l l' : List Chunk} (h : Layout Chunk.address Chunk.stop l)
    (h' : Layout Chunk.address Chunk.stop l') (hperm : l.Perm l') : l = l' := by
  apply hperm.eq_of_pairwise _ h.starts h'.starts
  intro c d _ _ hlt hlt'
  exact absurd hlt' (Nat.lt_asymm hlt)

def doubled (s : Manager) (c : Chunk) : Manager :=
  { s with
    chunks := insertItem Chunk.address c (s.chunks.erase c)
    holes := s.holes.orderedInsert (fun a b => a.1 < b.1) (c.size, c) }

lemma Heap.free_hole (hheap : Heap m₀ s) (hc : c ∈ s.chunks) (hfree : c.is_allocated = false)
    (fuel stale : ℕ) : ∃ s', s.freeOutcome fuel c.address stale = .returned s' ∧
      s'.chunks = s.chunks ∧ s'.holes.Perm (holeEntry c :: s.holes) ∧ s'.memory = s.memory := by
  have hlayout := hheap.toTiling.layout
  have hpos := hlayout.nonempty c hc
  have hfind := find_chunk hlayout hc
  have hone := hheap.toTiling.onePage hc hfree
  have hsmall : ¬ PageSize.toNat < c.size := by
    have hsize : PageSize.toNat = 4096 := rfl
    unfold Chunk.stop at hone hpos
    omega
  have heq : (⟨c.address, c.size, false⟩ : Chunk) = c := by
    rw [← hfree]
  -- the chunk is erased and inserted again
  obtain ⟨hinsert, hlayout'⟩ := insertChunk_spec (s := s.RemovePointer c) (c := c)
    (hlayout.erase c) hpos (hlayout.vacant_erase hc)
  have hchunks : (doubled s c).chunks = s.chunks := by
    apply eq_of_perm hlayout' hlayout
    exact (insertItem_perm Chunk.address c _).trans (List.perm_cons_erase hc).symm
  have hcreate : (s.RemovePointer c).CreateHole c.address c.size = some (doubled s c, c) := by
    simp only [CreateHole, heq, hinsert, Option.map_some]
    rfl
  have hreturn : s.free fuel c.address stale = some (doubled s c) := by
    unfold Manager.free
    rw [hfind]
    dsimp only
    rw [if_neg hsmall, hcreate, Option.bind_some]
    exact hheap.mergeHoles_hole hc hfree hchunks
  have hholes : (doubled s c).holes.Perm (holeEntry c :: s.holes) := List.perm_orderedInsert _ _ _
  refine ⟨doubled s c, ?_, hchunks, hholes, rfl⟩
  unfold freeOutcome
  rw [hfind, hreturn]

/-- In every sound run, a free at the start of a hole is not noticed. -/
theorem run_free_hole (m₀ : Memory) (hfuel : 2 ^ 20 ≤ fuel) {ops : List Op}
    (halong : Along (step fuel) (fun op s => Valid s op ∧ ReadsAddress s op) ops { memory := m₀ })
    (hrun : run (step fuel) ops { memory := m₀ } = some s) (hc : c ∈ s.chunks)
    (hfree : c.is_allocated = false) : ∃ s', s.freeOutcome fuel c.address stale = .returned s' ∧
      s'.chunks = s.chunks ∧ s'.holes.Perm (holeEntry c :: s.holes) ∧ s'.memory = s.memory := by
  exact (live_run hfuel halong hrun).heap.free_hole hc hfree fuel stale

/-- A live allocation can be freed twice in a row while another one holds its page. -/
def freedTwice : List Op := [.allocate 16 1, .allocate 16 1, .free 0xb7fb0000 0]

theorem run_free_hole_freedTwice : ∃ s ∈ run (step (2 ^ 20)) freedTwice { memory := {} },
    ∃ c ∈ s.chunks, ∃ s', s.freeOutcome (2 ^ 20) c.address 0 = .returned s' ∧
      s'.chunks = s.chunks ∧ s'.holes.Perm (holeEntry c :: s.holes) ∧ s'.memory = s.memory := by
  have hrun : ∃ s ∈ run (step (2 ^ 20)) freedTwice { memory := {} },
      ∃ c ∈ s.chunks, c.is_allocated = false := by
    decide +kernel
  have halong : Along (step (2 ^ 20)) (fun op s => Valid s op ∧ ReadsAddress s op) freedTwice
      { memory := {} } := by
    decide +kernel
  obtain ⟨s, hs, c, hc, hfree⟩ := hrun
  exact ⟨s, hs, c, hc, run_free_hole {} le_rfl halong hs hc hfree⟩

theorem rejects_iff_freedTwice :
    ∃ s ∈ run (step (2 ^ 20)) freedTwice { memory := {} },
      (∀ c ∈ s.chunks, c.is_allocated = true → c.address ≠ 0xb7fb0004) ∧
        Rejects (2 ^ 20) s 0xb7fb0004 0 := by
  have hrun : ∃ s ∈ run (step (2 ^ 20)) freedTwice { memory := {} },
      (∀ c ∈ s.chunks, c.is_allocated = true → c.address ≠ 0xb7fb0004) ∧
        ∀ c ∈ s.chunks, c.is_allocated = false → c.address ≠ 0xb7fb0004 := by
    decide +kernel
  obtain ⟨s, hs, hpointer, hhole⟩ := hrun
  exact ⟨s, hs, hpointer, (rejects_iff (2 ^ 20) s 0xb7fb0004 0 hpointer).mpr hhole⟩

/-- The second time `Free` returns. -/
theorem not_rejects_freedTwice : ∃ s ∈ run (step (2 ^ 20)) freedTwice { memory := {} },
    (∀ c ∈ s.chunks, c.is_allocated = true → c.address ≠ 0xb7fb0000) ∧
      ¬ Rejects (2 ^ 20) s 0xb7fb0000 0 := by
  have hrun : ∃ s ∈ run (step (2 ^ 20)) freedTwice { memory := {} },
      (∀ c ∈ s.chunks, c.is_allocated = true → c.address ≠ 0xb7fb0000) ∧
        (s.chunks.find? fun c => c.address = 0xb7fb0000).isSome ∧
        (s.free (2 ^ 20) 0xb7fb0000 0).isSome := by
    decide +kernel
  obtain ⟨s, hs, hpointer, hfind, hfree⟩ := hrun
  refine ⟨s, hs, hpointer, ?_⟩
  rintro ⟨message, s', heq, -⟩
  obtain ⟨it, hit⟩ := Option.isSome_iff_exists.mp hfind
  obtain ⟨s₁, hs₁⟩ := Option.isSome_iff_exists.mp hfree
  unfold freeOutcome at heq
  rw [hit, hs₁] at heq
  cases heq

end Free

section Order

def Sorted (s : Manager) : Prop := s.chunks.Pairwise fun c d => c.address < d.address

lemma Sorted.congr (h : Sorted s) (heq : s'.chunks = s.chunks) : Sorted s' := by
  unfold Sorted
  rw [heq]
  exact h

lemma Sorted.erase (h : Sorted s) (heq : s'.chunks = s.chunks.erase c) : Sorted s' := by
  unfold Sorted
  rw [heq]
  exact h.sublist List.erase_sublist

lemma Sorted.insertChunk (h : Sorted s) (hs : s.insertChunk c = some s') : Sorted s' := by
  unfold Manager.insertChunk at hs
  split_ifs at hs with hany
  obtain rfl := Option.some.inj hs
  rw [Bool.not_eq_true, List.any_eq_false] at hany
  have hweak : s.chunks.Pairwise fun c d => c.address ≤ d.address := h.imp fun hlt => hlt.le
  have hsorted : (insertItem Chunk.address c s.chunks).Pairwise fun c d =>
      c.address ≤ d.address := hweak.orderedInsert c s.chunks
  have hne : (insertItem Chunk.address c s.chunks).Pairwise fun c d => c.address ≠ d.address := by
    have hperm := insertItem_perm Chunk.address c s.chunks
    apply (hperm.symm.pairwise · fun hne => hne.symm)
    apply List.Pairwise.cons
    · intro d hd heq
      have hnot := hany d hd
      rw [decide_eq_true_eq] at hnot
      exact hnot heq.symm
    · exact h.imp fun hlt => hlt.ne
  exact hsorted.imp₂ (fun _ _ hle hne => lt_of_le_of_ne hle hne) hne

lemma Sorted.createHole {addr size : ℕ} (h : Sorted s)
    (hs : s.CreateHole addr size = some (s', hole)) : Sorted s' := by
  obtain ⟨s₁, hs₁, heq⟩ := Option.map_eq_some_iff.mp hs
  obtain ⟨rfl, -⟩ := Prod.mk.inj heq
  exact (h.insertChunk hs₁).congr rfl

lemma Sorted.removeHole (h : Sorted s) (hs : s.RemoveHole hole = some s') : Sorted s' := by
  unfold Manager.RemoveHole at hs
  split_ifs at hs
  obtain rfl := Option.some.inj hs
  exact h.erase rfl

lemma Sorted.createRest {addr size : ℕ} (h : Sorted s) (hs : s.CreateRest addr size = some s') :
    Sorted s' := by
  unfold Manager.CreateRest at hs
  split_ifs at hs
  · obtain ⟨⟨s₁, hole⟩, hs₁, rfl⟩ := Option.map_eq_some_iff.mp hs
    exact h.createHole hs₁
  · obtain rfl := Option.some.inj hs
    exact h

lemma Sorted.allocateIn {size alignment : ℕ} (h : Sorted s)
    (hs : s.AllocateIn hole size alignment = some (s', address)) : Sorted s' := by
  obtain ⟨s₁, hs₁, hrest⟩ := Option.bind_eq_some_iff.mp hs
  obtain ⟨s₂, hs₂, hrest⟩ := Option.bind_eq_some_iff.mp hrest
  obtain ⟨s₃, hs₃, hrest⟩ := Option.bind_eq_some_iff.mp hrest
  obtain ⟨s₄, hs₄, heq⟩ := Option.map_eq_some_iff.mp hrest
  obtain ⟨rfl, -⟩ := Prod.mk.inj heq
  exact (((h.removeHole hs₁).createRest hs₂).createRest hs₃).insertChunk hs₄

lemma Sorted.requestOnePage {base : BitVec 32} (h : Sorted s)
    (hs : s.RequestOnePage fuel base = some (s', hole)) : Sorted s' := by
  obtain ⟨addr, -, hrest⟩ := Option.bind_eq_some_iff.mp hs
  split_ifs at hrest
  obtain ⟨memory, -, hcreate⟩ := Option.bind_eq_some_iff.mp hrest
  have hmapped : Sorted { s with memory := memory } := h.congr rfl
  exact hmapped.createHole hcreate

lemma Sorted.allocateLarge {size : ℕ} (h : Sorted s)
    (hs : s.AllocateLarge fuel size = some (s', address)) : Sorted s' := by
  obtain ⟨a, -, hrest⟩ := Option.bind_eq_some_iff.mp hs
  split_ifs at hrest
  obtain ⟨memory, -, hcreate⟩ := Option.bind_eq_some_iff.mp hrest
  obtain ⟨s₁, hs₁, heq⟩ := Option.map_eq_some_iff.mp hcreate
  obtain ⟨rfl, -⟩ := Prod.mk.inj heq
  have hmapped : Sorted { s with memory := memory } := h.congr rfl
  exact hmapped.insertChunk hs₁

lemma Sorted.allocate {size alignment : ℕ} (h : Sorted s)
    (hs : s.allocate fuel size alignment = some (s', address)) : Sorted s' := by
  rw [Manager.allocate] at hs
  split_ifs at hs
  · exact h.allocateLarge hs
  · split at hs
    · exact h.allocateIn hs
    · obtain ⟨⟨s₁, hole⟩, hrequest, hrest⟩ := Option.bind_eq_some_iff.mp hs
      obtain ⟨⟨s₂, a⟩, hs₂, heq⟩ := Option.map_eq_some_iff.mp hrest
      obtain ⟨rfl, -⟩ := Prod.mk.inj heq
      exact (h.requestOnePage hrequest).allocateIn hs₂

lemma Sorted.merge2Holes (h : Sorted s) (hs : s.Merge2Holes c d = some s') : Sorted s' := by
  unfold Manager.Merge2Holes at hs
  split_ifs at hs
  obtain ⟨s₁, hs₁, hrest⟩ := Option.bind_eq_some_iff.mp hs
  obtain ⟨s₂, hs₂, hrest⟩ := Option.bind_eq_some_iff.mp hrest
  obtain ⟨⟨s₃, hole⟩, hs₃, rfl⟩ := Option.map_eq_some_iff.mp hrest
  exact ((h.removeHole hs₁).removeHole hs₂).createHole hs₃

lemma Sorted.mergeForward (h : Sorted s) (hs : s.mergeForward hole = some s') : Sorted s' := by
  obtain ⟨it, -, hrest⟩ := Option.bind_eq_some_iff.mp hs
  split at hrest
  · split_ifs at hrest
    · exact h.merge2Holes hrest
    · obtain rfl := Option.some.inj hrest
      exact h
  · obtain rfl := Option.some.inj hrest
    exact h

lemma Sorted.mergeBack {addr : ℕ} (h : Sorted s)
    (hs : s.mergeBack addr stale = some (s', address)) : Sorted s' := by
  obtain ⟨it, -, hrest⟩ := Option.bind_eq_some_iff.mp hs
  split at hrest
  · split_ifs at hrest
    · obtain ⟨s₁, hs₁, heq⟩ := Option.map_eq_some_iff.mp hrest
      obtain ⟨rfl, -⟩ := Prod.mk.inj heq
      exact h.merge2Holes hs₁
    · obtain ⟨rfl, -⟩ := Prod.mk.inj (Option.some.inj hrest)
      exact h
  · obtain ⟨rfl, -⟩ := Prod.mk.inj (Option.some.inj hrest)
    exact h

lemma Sorted.deallocatePage {addr : ℕ} (h : Sorted s)
    (hs : s.DeallocatePage fuel addr = some s') : Sorted s' := by
  obtain ⟨memory, -, rfl⟩ := Option.map_eq_some_iff.mp hs
  exact h.congr rfl

lemma Sorted.releasePage (h : Sorted s) (hs : s.releasePage fuel address = some s') :
    Sorted s' := by
  obtain ⟨it, -, hrest⟩ := Option.bind_eq_some_iff.mp hs
  split_ifs at hrest
  · obtain ⟨s₁, hs₁, hrest⟩ := Option.bind_eq_some_iff.mp hrest
    exact (h.deallocatePage hs₁).removeHole hrest
  · obtain rfl := Option.some.inj hrest
    exact h

lemma Sorted.mergeHoles (h : Sorted s) (hs : s.MergeHoles fuel hole stale = some s') :
    Sorted s' := by
  unfold Manager.MergeHoles at hs
  split_ifs at hs
  obtain ⟨s₁, hs₁, hrest⟩ := Option.bind_eq_some_iff.mp hs
  obtain ⟨⟨s₂, addr⟩, hs₂, hrest⟩ := Option.bind_eq_some_iff.mp hrest
  exact ((h.mergeForward hs₁).mergeBack hs₂).releasePage hrest

lemma Sorted.deallocatePages {n addr : ℕ} (h : Sorted s)
    (hs : deallocatePages fuel n addr s = some s') : Sorted s' := by
  induction n generalizing addr s with
  | zero =>
    obtain rfl := Option.some.inj hs
    exact h
  | succ n ih =>
    obtain ⟨s₁, hs₁, hrest⟩ := Option.bind_eq_some_iff.mp hs
    exact ih (h.deallocatePage hs₁) hrest

lemma Sorted.free (h : Sorted s) (hs : s.free fuel address stale = some s') : Sorted s' := by
  unfold Manager.free at hs
  split at hs
  · cases hs
  · split_ifs at hs
    · obtain ⟨s₁, hs₁, rfl⟩ := Option.map_eq_some_iff.mp hs
      exact (h.deallocatePages hs₁).erase rfl
    · obtain ⟨⟨s₁, hole⟩, hs₁, hrest⟩ := Option.bind_eq_some_iff.mp hs
      exact ((h.erase rfl).createHole hs₁).mergeHoles hrest

lemma Sorted.step {op : Op} (h : Sorted s) (hs : step fuel op s = some s') : Sorted s' := by
  cases op with
  | allocate size alignment =>
    obtain ⟨x, hx, rfl⟩ := Option.map_eq_some_iff.mp hs
    obtain ⟨y, hy, rfl⟩ := Option.map_eq_some_iff.mp hx
    exact (h.allocate hy).congr rfl
  | free address stale =>
    obtain ⟨s₁, hs₁, rfl⟩ := Option.map_eq_some_iff.mp hs
    exact (h.free hs₁).congr rfl

lemma run_sorted {ops : List Op} (hrun : run (step fuel) ops { memory := m₀ } = some s) :
    Sorted s := by
  have hempty : Sorted { memory := m₀ } := List.Pairwise.nil
  exact run_invariant (P := fun _ _ => True) (fun _ _ _ hinv _ hstep => Sorted.step hinv hstep)
    hempty (along_of_forall (fun _ _ => trivial) ops _) hrun

lemma Sorted.lowerBound_eq (h : Sorted s) (hc : c ∈ s.chunks) :
    lowerBound Chunk.address s.chunks c.address = some c := by
  obtain ⟨front, back, heq⟩ := List.append_of_mem hc
  unfold Sorted at h
  rw [heq, List.pairwise_append] at h
  unfold lowerBound
  rw [heq, List.find?_append, List.find?_eq_none.mpr, Option.none_or, List.find?_cons_of_pos]
  · rw [decide_eq_true_eq]
  · intro d hd
    rw [decide_eq_true_eq, not_le]
    exact h.2.2 d hd c List.mem_cons_self

end Order

section Valid

/-- The address lies inside a currently allocated chunk. -/
def InPointer (s : Manager) (address : ℕ) : Prop :=
  ∃ c ∈ s.chunks, c.is_allocated = true ∧ c.address ≤ address ∧ address ≤ getEndAddress c

instance (s : Manager) (address : ℕ) : Decidable (InPointer s address) :=
  inferInstanceAs (Decidable (∃ c ∈ s.chunks, _))

/-- An allocated chunk starts at the address. -/
def StartsPointer (s : Manager) (address : ℕ) : Prop :=
  ∃ c ∈ s.chunks, c.is_allocated = true ∧ c.address = address ∧ address ≤ getEndAddress c

instance (s : Manager) (address : ℕ) : Decidable (StartsPointer s address) :=
  inferInstanceAs (Decidable (∃ c ∈ s.chunks, _))

lemma Sorted.isValidAddress_true (h : Sorted s) :
    s.isValidAddress address = some true ↔ StartsPointer s address := by
  constructor
  · intro hvalid
    obtain ⟨it, hit, hcheck⟩ := Option.map_eq_some_iff.mp hvalid
    have hmem := List.mem_of_find?_eq_some hit
    have hle := List.find?_some hit
    rw [decide_eq_true_eq] at hle
    simp only [Bool.and_eq_true, decide_eq_true_eq] at hcheck
    exact ⟨it, hmem, hcheck.2, le_antisymm hcheck.1.1 hle, hcheck.1.2⟩
  · rintro ⟨c, hc, hallocated, rfl, hend⟩
    unfold isValidAddress
    rw [h.lowerBound_eq hc, Option.map_some, hallocated]
    simp [hend]

lemma isValidAddress_isSome :
    (s.isValidAddress address).isSome ↔ ∃ c ∈ s.chunks, address ≤ c.address := by
  unfold isValidAddress lowerBound
  rw [Option.isSome_map, List.find?_isSome]
  simp only [decide_eq_true_eq]

/-- In every run `isValidAddress` is right about an address exactly when some chunk does not start
before it, and it is in no allocated chunk or is the start of one. -/
theorem isValidAddress_iff (m₀ : Memory) {ops : List Op}
    (hrun : run (step fuel) ops { memory := m₀ } = some s) (address : ℕ) :
    s.isValidAddress address = some (decide (InPointer s address)) ↔
      (∃ c ∈ s.chunks, address ≤ c.address) ∧
        (InPointer s address → StartsPointer s address) := by
  have hsorted := run_sorted hrun
  constructor
  · intro hvalid
    constructor
    · apply isValidAddress_isSome.mp
      rw [hvalid]
      rfl
    · intro hin
      rw [decide_eq_true hin] at hvalid
      exact hsorted.isValidAddress_true.mp hvalid
  · rintro ⟨hsome, hstart⟩
    by_cases hin : InPointer s address
    · rw [decide_eq_true hin]
      exact hsorted.isValidAddress_true.mpr (hstart hin)
    · rw [decide_eq_false hin]
      obtain ⟨b, hb⟩ := Option.isSome_iff_exists.mp (isValidAddress_isSome.mpr hsome)
      cases b with
      | false => exact hb
      | true =>
        obtain ⟨c, hc, hallocated, rfl, hend⟩ := hsorted.isValidAddress_true.mp hb
        exact absurd ⟨c, hc, hallocated, le_rfl, hend⟩ hin

/-- A pointer and the hole behind it. -/
def onePointer : List Op := [.allocate 16 1]

theorem isValidAddress_iff_onePointer :
    ∃ s ∈ run (step (2 ^ 20)) onePointer { memory := {} }, InPointer s 0xb7fb0000 ∧
      s.isValidAddress 0xb7fb0000 = some (decide (InPointer s 0xb7fb0000)) := by
  have hrun : ∃ s ∈ run (step (2 ^ 20)) onePointer { memory := {} }, InPointer s 0xb7fb0000 ∧
      (∃ c ∈ s.chunks, 0xb7fb0000 ≤ c.address) ∧ StartsPointer s 0xb7fb0000 := by
    decide +kernel
  obtain ⟨s, hs, hin, hsome, hstart⟩ := hrun
  exact ⟨s, hs, hin, (isValidAddress_iff {} hs 0xb7fb0000).mpr ⟨hsome, fun _ => hstart⟩⟩

/-- Inside the pointer the search ends at the hole. -/
theorem not_isValidAddress_insidePointer :
    ∃ s ∈ run (step (2 ^ 20)) onePointer { memory := {} }, InPointer s 0xb7fb0004 ∧
      s.isValidAddress 0xb7fb0004 = some false := by
  decide +kernel

lemma Heap.getEndAddress_eq (hheap : Heap m₀ s) (hc : c ∈ s.chunks) :
    getEndAddress c = c.stop - 1 := by
  have hbound := hheap.bound c hc
  have hpos := hheap.toTiling.layout.nonempty c hc
  unfold getEndAddress unsignedSub
  unfold Chunk.stop at hbound hpos ⊢
  rw [Nat.mod_eq_of_lt (by omega), if_pos (by omega)]

/-- In every sound run `isValidAddress` is right exactly about the addresses that some chunk does
not start before and that are not behind the start of an allocated chunk. -/
theorem run_isValidAddress_iff (m₀ : Memory) (hfuel : 2 ^ 20 ≤ fuel) {ops : List Op}
    (halong : Along (step fuel) (fun op s => Valid s op ∧ ReadsAddress s op) ops { memory := m₀ })
    (hrun : run (step fuel) ops { memory := m₀ } = some s) (address : ℕ) :
    s.isValidAddress address = some (decide (InPointer s address)) ↔
      (∃ c ∈ s.chunks, address ≤ c.address) ∧
        ∀ c ∈ s.chunks, c.is_allocated = true → ¬ (c.address < address ∧ address < c.stop) := by
  have hlive : Live m₀ s := run_invariant (P := fun op s => Valid s op ∧ ReadsAddress s op)
    (fun _ _ _ hinv hop hstep => Live.step hinv hop.1 hop.2 hfuel hstep) (live_init m₀) halong hrun
  have hlayout := hlive.heap.toTiling.layout
  rw [isValidAddress_iff m₀ hrun]
  apply and_congr_right
  intro _
  constructor
  · intro hstart c hc hallocated hinside
    have hend := hlive.heap.getEndAddress_eq hc
    have hin : InPointer s address := ⟨c, hc, hallocated, by omega, by omega⟩
    obtain ⟨d, hd, -, rfl, -⟩ := hstart hin
    have hpos := hlayout.nonempty d hd
    have heq := hlayout.unique hc hd ⟨hinside.1.le, hinside.2⟩ ⟨le_rfl, hpos⟩
    rw [heq] at hinside
    exact Nat.lt_irrefl _ hinside.1
  · rintro hnot ⟨c, hc, hallocated, hle, hend⟩
    have hlast := hlive.heap.getEndAddress_eq hc
    have hpos := hlayout.nonempty c hc
    have hnotinside := hnot c hc hallocated
    exact ⟨c, hc, hallocated, by omega, hend⟩

end Valid

end OISA.Memory.Manager
