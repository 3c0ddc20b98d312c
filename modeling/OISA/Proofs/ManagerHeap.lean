import OISA.Proofs.FreeRegions
import OISA.Proofs.ManagerMerge

/-!
# Allocating and freeing

What one call of `Allocate` or `Free` does to the pointers.
-/

namespace OISA.Memory

open OISA.Lib

def Allocation.chunk (a : Allocation) : Chunk :=
  ⟨a.address, if PageSize.toNat < a.size then Manager.pageAlignedSize a.size else a.size, true⟩

lemma Allocation.chunk_large {a : Allocation} (h : 4096 < a.size) :
    a.chunk = ⟨a.address, Manager.pageAlignedSize a.size, true⟩ := by
  have hlarge : PageSize.toNat < a.size := h
  unfold Allocation.chunk
  rw [if_pos hlarge]

lemma Allocation.chunk_small {a : Allocation} (h : a.size ≤ 4096) :
    a.chunk = ⟨a.address, a.size, true⟩ := by
  have hsmall : ¬ PageSize.toNat < a.size := not_lt.mpr h
  unfold Allocation.chunk
  rw [if_neg hsmall]

namespace Manager

variable {m₀ : Memory} {s s' : Manager} {c hole : Chunk} {op : Op}
  {fuel size alignment address stale : ℕ}

section Allocate

/-- The page that is found becomes one hole, unless it is the last one. -/
lemma Heap.requestFoundPage (hheap : Heap m₀ s) (hfuel : 2 ^ 20 ≤ fuel) {a : BitVec 32}
    (ha : s.memory.MapSpace fuel MapBaseAddress PageSize = some a) (hne : a ≠ -1#32)
    (hlast : a.toNat ≠ 0xFFFFF000) :
    ∃ s', s.RequestOnePage fuel MapBaseAddress = some (s', ⟨a.toNat, 4096, false⟩) ∧
      Tiling m₀ s' ∧ Separated s' ∧ ⟨a.toNat, 4096, false⟩ ∈ s'.chunks ∧ a.toNat % 4096 = 0 ∧
      SamePointers s s' ∧
      ∀ c ∈ s'.chunks, c ≠ ⟨a.toNat, 4096, false⟩ → c.is_allocated = false → c.size ≠ 4096 := by
  have hsize : PageSize.toNat = 4096 := rfl
  obtain ⟨haligned, hnone⟩ := mapSpace_spec ha hne
  rw [hsize] at hnone
  have hlt := a.isLt
  have hlast : a.toNat + 4096 ≤ 0xFFFFF000 := by omega
  obtain ⟨memory, hmap, hpages⟩ := map_spec s.memory a PageSize 7#32
    (by rw [hsize]; omega) (by rw [hsize]; exact hlast) hfuel
  have hindexed : Indexed { s with memory := memory } := ⟨hheap.indexed.layout, hheap.indexed.holes⟩
  obtain ⟨s₁, hs₁, hchanged⟩ := hindexed.createHole a.toNat 4096 (by omega)
    (hheap.toTiling.vacant (by omega) (by omega) hnone)
  have hrequest : s.RequestOnePage fuel MapBaseAddress = some (s₁, ⟨a.toNat, 4096, false⟩) := by
    unfold RequestOnePage
    rw [ha, Option.bind_some, if_neg hne, hmap, Option.bind_some, hsize]
    exact hs₁
  have hin : ∀ x : BitVec 32, InPages a.toNat PageSize.toNat x ↔
      a.toNat ≤ x.toNat ∧ x.toNat < a.toNat + 4096 := by
    intro x
    unfold InPages
    rw [hsize]
    omega
  have htiling : Tiling m₀ s₁ := by
    refine hheap.toTiling.addPages (c := ⟨a.toNat, 4096, false⟩) haligned (Nat.mod_self 4096)
      hlast ?_ hnone ?_ hchanged
    · left
      unfold Chunk.stop
      simp only []
      omega
    · intro x
      have hpage := hpages x
      rw [hin] at hpage
      exact hpage
  have hmem : ∀ d, d ∈ s₁.chunks ↔ d = ⟨a.toNat, 4096, false⟩ ∨ d ∈ s.chunks := by
    intro d
    rw [hchanged.chunks.mem_iff, List.mem_cons]
  refine ⟨s₁, hrequest, htiling, ?_, (hmem _).mpr (.inl rfl), haligned, ⟨hchanged.live, ?_⟩, ?_⟩
  · intro c hc d hd hcfree hdfree htouch
    have hposC := htiling.layout.nonempty c hc
    obtain rfl | hc' := (hmem c).mp hc
    · unfold Chunk.stop at htouch
      simp only [] at htouch ⊢
      omega
    · obtain rfl | hd' := (hmem d).mp hd
      · have hone := htiling.onePage hc hcfree
        simp only [] at htouch ⊢
        omega
      · exact hheap.separated c hc' d hd' hcfree hdfree htouch
  · have hperm := hchanged.chunks.filter fun c => c.is_allocated
    rw [List.filter_cons_of_neg (by simp)] at hperm
    exact hperm
  · intro c hc hne hcfree
    exact hheap.parts c (((hmem c).mp hc).resolve_left hne) hcfree

lemma Heap.requestOnePage (hheap : Heap m₀ s) (hfuel : 2 ^ 20 ≤ fuel)
    (h : s.RequestOnePage fuel MapBaseAddress = some (s', hole)) :
    Tiling m₀ s' ∧ Separated s' ∧ hole ∈ s'.chunks ∧ hole.is_allocated = false ∧
      hole.address % 4096 = 0 ∧ hole.size = 4096 ∧ SamePointers s s' ∧
      ∀ c ∈ s'.chunks, c ≠ hole → c.is_allocated = false → c.size ≠ 4096 := by
  obtain ⟨a, ha, hrest⟩ := Option.bind_eq_some_iff.mp h
  split_ifs at hrest with hoverflow
  obtain ⟨memory, hmap, _⟩ := Option.bind_eq_some_iff.mp hrest
  have hlast : a.toNat ≠ 0xFFFFF000 := by
    intro heq
    rw [map_last heq] at hmap
    cases hmap
  obtain ⟨s₁, hs₁, htiling, hseparated, hmem, haligned, hsame, hparts⟩ :=
    hheap.requestFoundPage hfuel ha hoverflow hlast
  obtain ⟨rfl, rfl⟩ := Prod.mk.inj (Option.some.inj (hs₁.symm.trans h))
  exact ⟨htiling, hseparated, hmem, rfl, haligned, rfl, hsame, hparts⟩

structure Allocated (m₀ : Memory) (s s' : Manager) (a : Allocation) : Prop where
  heap : Heap m₀ s'
  live : s'.live = s.live
  aligned : a.alignment ∣ a.address
  pointers : (s'.chunks.filter (·.is_allocated)).Perm
    (a.chunk :: s.chunks.filter (·.is_allocated))

/-- The pages that an allocation maps start at a multiple of the alignment. -/
structure PagesAligned (fuel : ℕ) (s : Manager) (size alignment : ℕ) : Prop where
  large : 4096 < size → ∀ a,
    s.memory.MapSpaceDown fuel MapBaseAddress (.ofNat 32 (pageAlignedSize size)) = some a →
    a ≠ -1#32 → alignment ∣ a.toNat
  small : size ≤ 4096 →
    ((s.holes.dropWhile fun h => h.1 < size).find? fun h =>
      canHoleContain h.2 size alignment) = none →
    ∀ s' hole, s.RequestOnePage fuel MapBaseAddress = some (s', hole) → alignment ∣ hole.address

lemma dvd_of_page (h : ∃ k ≤ 12, alignment = 2 ^ k) (haddress : address % 4096 = 0) :
    alignment ∣ address := by
  obtain ⟨k, hk, rfl⟩ := h
  exact (Nat.pow_dvd_pow 2 hk).trans (Nat.dvd_of_mod_eq_zero haddress)

lemma Heap.pagesAligned (hheap : Heap m₀ s) (hfuel : 2 ^ 20 ≤ fuel)
    (halignment : ∃ k ≤ 12, alignment = 2 ^ k) : PagesAligned fuel s size alignment where
  large := by
    intro _ a ha hne
    exact dvd_of_page halignment (mapSpaceDown_spec ha hne).1
  small := by
    intro _ _ s' hole hrequest
    obtain ⟨_, _, _, _, haligned, _⟩ := hheap.requestOnePage hfuel hrequest
    exact dvd_of_page halignment haligned

/-- A large allocation returns the pages that are found. -/
lemma Heap.allocateLarge (hheap : Heap m₀ s) (hlarge : 4096 < size) (hle : size ≤ 0xFFFFF000)
    (hfuel : 2 ^ 20 ≤ fuel) {a : BitVec 32}
    (ha : s.memory.MapSpaceDown fuel MapBaseAddress (.ofNat 32 (pageAlignedSize size)) = some a)
    (hoverflow : a ≠ -1#32) :
    ∃ s', s.AllocateLarge fuel size = some (s', a.toNat) ∧
      ∀ alignment, alignment ∣ a.toNat → Allocated m₀ s s' ⟨a.toNat, size, alignment⟩ := by
  have hpage : PageSize.toNat = 4096 := rfl
  have hround : pageAlignedSize size = (size + 4095) / 4096 * 4096 := rfl
  have hrounded : (BitVec.ofNat 32 (pageAlignedSize size)).toNat = pageAlignedSize size := by
    rw [BitVec.toNat_ofNat, Nat.mod_eq_of_lt (by omega)]
  have hsized : (BitVec.ofNat 32 size).toNat = size := by
    rw [BitVec.toNat_ofNat, Nat.mod_eq_of_lt (by omega)]
  have hbase : MapBaseAddress.toNat = 0xb7fb0000 := rfl
  obtain ⟨haligned, hbound, hnone⟩ := mapSpaceDown_spec ha hoverflow
  rw [hrounded] at hbound hnone
  rw [hbase] at hbound
  obtain ⟨memory, hmap, hpages⟩ := map_spec s.memory a (.ofNat 32 size) 7#32
    (by omega) (by omega) hfuel
  have hindexed : Indexed { s with memory := memory } := ⟨hheap.indexed.layout, hheap.indexed.holes⟩
  obtain ⟨s₁, hs₁, hchanged⟩ := hindexed.createPointer a.toNat
    (pageAlignedSize size) (by omega)
    (hheap.toTiling.vacant (by omega) (by omega) hnone)
  have hallocate : s.AllocateLarge fuel size = some (s₁, a.toNat) := by
    unfold AllocateLarge
    dsimp only
    rw [ha, Option.bind_some, if_neg hoverflow, hmap, Option.bind_some, hs₁]
    rfl
  have hin : ∀ x : BitVec 32, InPages a.toNat (BitVec.ofNat 32 size).toNat x ↔
      a.toNat ≤ x.toNat ∧ x.toNat < a.toNat + pageAlignedSize size := by
    intro x
    unfold InPages
    rw [hsized]
    omega
  have htiling : Tiling m₀ s₁ := by
    refine hheap.toTiling.addPages (c := ⟨a.toNat, pageAlignedSize size, true⟩) haligned ?_ ?_ ?_
      hnone ?_ hchanged
    · change pageAlignedSize size % 4096 = 0
      omega
    · change a.toNat + pageAlignedSize size ≤ _
      omega
    · right
      refine ⟨rfl, haligned, ?_, ?_⟩
      · change pageAlignedSize size % 4096 = 0
        omega
      · change 4096 < pageAlignedSize size
        omega
    · intro x
      have hpage := hpages x
      rw [hin] at hpage
      exact hpage
  have hmem : ∀ d, d ∈ s₁.chunks ↔ d = ⟨a.toNat, pageAlignedSize size, true⟩ ∨ d ∈ s.chunks := by
    intro d
    rw [hchanged.chunks.mem_iff, List.mem_cons]
  have hold : ∀ d ∈ s₁.chunks, d.is_allocated = false → d ∈ s.chunks := by
    intro d hd hfree
    obtain rfl | hd := (hmem d).mp hd
    · cases hfree
    · exact hd
  refine ⟨s₁, hallocate, fun alignment hdvd => ⟨⟨htiling, ?_, ?_⟩, hchanged.live, hdvd, ?_⟩⟩
  · intro c hc d hd hcfree hdfree
    exact hheap.separated c (hold c hc hcfree) d (hold d hd hdfree) hcfree hdfree
  · intro c hc hcfree
    exact hheap.parts c (hold c hc hcfree) hcfree
  · have hperm := hchanged.chunks.filter fun c => c.is_allocated
    rw [List.filter_cons_of_pos rfl] at hperm
    rw [Allocation.chunk_large hlarge]
    exact hperm

lemma Heap.allocate (hheap : Heap m₀ s) (hsize : 0 < size) (hle : size ≤ 0xFFFFF000)
    (hpos : 0 < alignment) (hpages : PagesAligned fuel s size alignment) (hfuel : 2 ^ 20 ≤ fuel)
    (h : s.allocate fuel size alignment = some (s', address)) :
    Allocated m₀ s s' ⟨address, size, alignment⟩ := by
  have hpage : PageSize.toNat = 4096 := rfl
  rw [Manager.allocate] at h
  split_ifs at h with hassert hlarge
  · obtain ⟨a, ha, hrest⟩ := Option.bind_eq_some_iff.mp h
    split_ifs at hrest with hoverflow
    obtain ⟨s₁, hs₁, hallocated⟩ := hheap.allocateLarge hlarge hle hfuel ha hoverflow
    obtain ⟨rfl, rfl⟩ := Prod.mk.inj (Option.some.inj (hs₁.symm.trans h))
    exact hallocated alignment (hpages.large hlarge a ha hoverflow)
  · have hsmall : size ≤ 4096 := not_lt.mp hlarge
    have hchunk : ∀ a, Allocation.chunk ⟨a, size, alignment⟩ = ⟨a, size, true⟩ :=
      fun a => Allocation.chunk_small hsmall
    split at h
    case h_1 entry hfind =>
      have hmem := (List.dropWhile_sublist _).subset (List.mem_of_find?_eq_some hfind)
      obtain ⟨hhole, hfree⟩ := hheap.indexed.mem_holes (n := entry.1) (c := entry.2) hmem
      have hfits := List.find?_some hfind
      obtain ⟨s₁, hs₁, hheap₁, hlive, hperm⟩ := hheap.toTiling.allocateIn hhole hfree hsize hpos
        hfits hheap.separated fun c hc _ => hheap.parts c hc
      obtain ⟨rfl, rfl⟩ := Prod.mk.inj (Option.some.inj (hs₁.symm.trans h))
      refine ⟨hheap₁, hlive, dvd_getNextAlignedAddress, ?_⟩
      rw [hchunk]
      exact hperm
    case h_2 hnone =>
      obtain ⟨⟨s₁, hole⟩, hrequest, h⟩ := Option.bind_eq_some_iff.mp h
      obtain ⟨htiling, hseparated, hmem, hfree, haligned, hfull, hsame, hparts⟩ :=
        hheap.requestOnePage hfuel hrequest
      have hdvd := hpages.small hsmall hnone s₁ hole hrequest
      have hnext := getNextAlignedAddress_of_dvd hpos hdvd
      have hfits : canHoleContain hole size alignment = true := by
        rw [canHoleContain_iff hpos, hnext]
        unfold Chunk.stop
        omega
      obtain ⟨s₂, hs₂, hheap₂, hlive, hperm⟩ :=
        htiling.allocateIn hmem hfree hsize hpos hfits hseparated hparts
      obtain ⟨y, hy, heq⟩ := Option.map_eq_some_iff.mp h
      obtain rfl := Option.some.inj (hs₂.symm.trans hy)
      obtain ⟨rfl, rfl⟩ := Prod.mk.inj heq
      refine ⟨hheap₂, hlive.trans hsame.live, hdvd, ?_⟩
      rw [hchunk]
      rw [hnext] at hperm
      exact hperm.trans (hsame.pointers.cons _)

end Allocate

section Free

lemma deallocatePages_spec (n : ℕ) (haddress : address % 4096 = 0)
    (hlast : address + n * 4096 ≤ 0xFFFFF000) (hfuel : 2 ^ 20 ≤ fuel) :
    ∃ memory, deallocatePages fuel n address s = some { s with memory := memory } ∧
      ∀ x : BitVec 32, (address ≤ x.toNat ∧ x.toNat < address + n * 4096 →
          memory.getPage x = none) ∧
        (¬ (address ≤ x.toNat ∧ x.toNat < address + n * 4096) →
          memory.getPage x = s.memory.getPage x) := by
  induction n generalizing address s with
  | zero =>
    refine ⟨s.memory, rfl, ?_⟩
    intro x
    refine ⟨?_, fun _ => rfl⟩
    intro hx
    omega
  | succ n ih =>
    obtain ⟨m₁, hm₁, hpages₁⟩ := unmap_spec s.memory haddress (by omega) hfuel
    obtain ⟨m₂, hm₂, hpages₂⟩ := ih (s := { s with memory := m₁ })
      (by omega : (address + 4096) % 4096 = 0) (by omega)
    refine ⟨m₂, ?_, ?_⟩
    · rw [deallocatePages, DeallocatePage, hm₁]
      exact hm₂
    · intro x
      have hpage₁ := hpages₁ x
      have hpage₂ := hpages₂ x
      constructor
      · intro hx
        by_cases hfirst : x.toNat < address + 4096
        · rw [hpage₂.2 (by omega)]
          exact hpage₁.1 (by omega)
        · exact hpage₂.1 (by omega)
      · intro hx
        rw [hpage₂.2 (by omega)]
        exact hpage₁.2 (by omega)

/-- The value read from the freed chunk in front, if there is one, is still its address. -/
def ReadsAddress (s : Manager) : Op → Prop
  | .allocate _ _ => True
  | .free address stale => ∀ c ∈ s.chunks, c.is_allocated = false → c.stop = address →
      c.address / 4096 = address / 4096 → stale = c.address

lemma find_chunk (hlayout : Layout Chunk.address Chunk.stop s.chunks) (hc : c ∈ s.chunks) :
    (s.chunks.find? fun d => d.address = c.address) = some c := by
  cases hfind : s.chunks.find? fun d => d.address = c.address with
  | none =>
    have hnot := List.find?_eq_none.mp hfind c hc
    simp at hnot
  | some d =>
    have heq := List.find?_some hfind
    rw [decide_eq_true_eq] at heq
    rw [hlayout.eq_of_start (List.mem_of_find?_eq_some hfind) hc heq]

/-- Freeing a pointer returns, and the pointer is gone. -/
lemma Heap.free (hheap : Heap m₀ s) (hc : c ∈ s.chunks) (hallocated : c.is_allocated = true)
    (hread : ReadsAddress s (.free c.address stale)) (hfuel : 2 ^ 20 ≤ fuel) :
    ∃ s', s.free fuel c.address stale = some s' ∧ Heap m₀ s' ∧ s'.live = s.live ∧
      (s'.chunks.filter (·.is_allocated)).Perm ((s.chunks.filter (·.is_allocated)).erase c) := by
  have hpage : PageSize.toNat = 4096 := rfl
  have hbound := hheap.bound c hc
  have hposC := hheap.toTiling.nonempty hc
  have herase := ((List.perm_cons_erase hc).filter fun c => c.is_allocated).erase c
  rw [List.filter_cons_of_pos (by simpa using hallocated), List.erase_cons_head] at herase
  have hremove := hheap.indexed.removePointer hc hallocated
  unfold Manager.free
  rw [find_chunk hheap.toTiling.layout hc]
  simp only []
  split_ifs with hlarge
  · -- whole pages go with a large pointer
    obtain hone | ⟨-, haddress, hsize, -⟩ := hheap.shaped c hc
    · unfold Chunk.stop at hone
      omega
    · have hcount : c.size / PageSize.toNat * 4096 = c.size := by
        rw [hpage]
        omega
      obtain ⟨memory, hmemory, hpages⟩ := deallocatePages_spec (s := s) (c.size / PageSize.toNat)
        haddress (by rw [hcount]; exact hbound) hfuel
      rw [hcount] at hpages
      have hindexed : Indexed { s with memory := memory } :=
        ⟨hheap.indexed.layout, hheap.indexed.holes⟩
      have hchanged := hindexed.removePointer hc hallocated
      have htiling : Tiling m₀ ({ s with memory := memory }.RemovePointer c) :=
        hheap.toTiling.removePages hc haddress hsize hpages hchanged
      have hold : ∀ d ∈ s.chunks.erase c, d ∈ s.chunks := fun d hd => List.mem_of_mem_erase hd
      refine ⟨{ s with memory := memory }.RemovePointer c, ?_, ⟨htiling, ?_, ?_⟩, rfl, ?_⟩
      · unfold FreeLarge
        rw [hmemory]
        rfl
      · intro d hd e he
        exact hheap.separated d (hold d hd) e (hold e he)
      · intro d hd
        exact hheap.parts d (hold d hd)
      · exact herase.symm
  · have hone : c.address / 4096 = (c.stop - 1) / 4096 := by
      obtain hone | ⟨-, -, -, hgt⟩ := hheap.shaped c hc
      · exact hone
      · exact absurd hgt hlarge
    obtain ⟨s₁, hs₁, hchanged₁⟩ := hremove.indexed.createHole c.address _ hposC
      (hheap.toTiling.layout.vacant_erase hc)
    have hchanged : Changed s s₁ (⟨c.address, c.size, false⟩ :: s.chunks.erase c) :=
      ⟨hchanged₁.indexed, hchanged₁.chunks, hchanged₁.memory, hchanged₁.live⟩
    have hmem : ∀ d, d ∈ s₁.chunks ↔ d = ⟨c.address, c.size, false⟩ ∨ d ≠ c ∧ d ∈ s.chunks := by
      intro d
      rw [hchanged.chunks.mem_iff, List.mem_cons, hheap.toTiling.layout.mem_erase]
    have htiling : Tiling m₀ s₁ := by
      apply hheap.toTiling.replace hchanged
      · intro x
        rw [Taken, covers_cons, Taken, covers_erase hc]
        rfl
      · intro d hd
        obtain rfl | hd := List.mem_cons.mp hd
        · exact .inr ⟨hbound, .inl hone⟩
        · exact .inl (List.mem_of_mem_erase hd)
    have hmerging : Merging m₀ s₁ ⟨c.address, c.size, false⟩ := by
      refine ⟨htiling, (hmem _).mpr (.inl rfl), rfl, ?_, ?_⟩
      · intro d hd e he hdne hene
        obtain ⟨-, hd⟩ := ((hmem d).mp hd).resolve_left hdne
        obtain ⟨-, he⟩ := ((hmem e).mp he).resolve_left hene
        exact hheap.separated d hd e he
      · intro d hd hdne
        exact hheap.parts d (((hmem d).mp hd).resolve_left hdne).2
    have hstale : ∀ d ∈ s₁.chunks, d.is_allocated = false → d.stop = c.address →
        d.address / 4096 = c.address / 4096 → stale = d.address := by
      intro d hd hdfree htouch hsamePage
      have hposD := htiling.layout.nonempty d hd
      have hne : d ≠ ⟨c.address, c.size, false⟩ := by
        rintro rfl
        unfold Chunk.stop at htouch
        simp only [] at htouch
        omega
      exact hread d (((hmem d).mp hd).resolve_left hne).2 hdfree htouch hsamePage
    obtain ⟨s₂, hs₂, hheap₂, hsame⟩ := hmerging.mergeHoles hfuel hstale
    refine ⟨s₂, ?_, hheap₂, hsame.live.trans hchanged.live, ?_⟩
    · rw [hs₁]
      exact hs₂
    · have hperm := hchanged.chunks.filter fun c => c.is_allocated
      rw [List.filter_cons_of_neg (by simp)] at hperm
      exact hsame.pointers.trans (hperm.trans herase.symm)

end Free

end Manager

end OISA.Memory
