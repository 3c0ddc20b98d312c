import OISA.Proofs.ManagerTiling

/-!
# Merging holes

A new hole is merged with the hole behind it and with the one in front of it in the same page, and
a page that is one hole is unmapped.
-/

namespace OISA.Memory.Manager

open OISA.Lib

variable {m₀ : Memory} {s s' : Manager} {c d h h' : Chunk} {fuel stale : ℕ}

/-- The holes are merged but for what touches the hole `h`. -/
structure Merging (m₀ : Memory) (s : Manager) (h : Chunk) : Prop where
  tiling : Tiling m₀ s
  mem : h ∈ s.chunks
  free : h.is_allocated = false
  separated : ∀ c ∈ s.chunks, ∀ d ∈ s.chunks, c ≠ h → d ≠ h → c.is_allocated = false →
    d.is_allocated = false → c.stop = d.address → c.address / 4096 ≠ d.address / 4096
  parts : ∀ c ∈ s.chunks, c ≠ h → c.is_allocated = false → c.size ≠ 4096

def RightMerged (s : Manager) (h : Chunk) : Prop :=
  ∀ d ∈ s.chunks, d.is_allocated = false → h.stop = d.address → h.address / 4096 ≠ d.address / 4096

def LeftMerged (s : Manager) (h : Chunk) : Prop :=
  ∀ c ∈ s.chunks, c.is_allocated = false → c.stop = h.address → c.address / 4096 ≠ h.address / 4096

structure SamePointers (s s' : Manager) : Prop where
  live : s'.live = s.live
  pointers : (s'.chunks.filter (·.is_allocated)).Perm (s.chunks.filter (·.is_allocated))

lemma SamePointers.refl (s : Manager) : SamePointers s s := ⟨rfl, .refl _⟩

lemma SamePointers.trans {s₁ : Manager} (hsame : SamePointers s s₁) (hsame' : SamePointers s₁ s') :
    SamePointers s s' :=
  ⟨hsame'.live.trans hsame.live, hsame'.pointers.trans hsame.pointers⟩

lemma isInSamePage_iff {a b : ℕ} : isInSamePage a b = true ↔ a / 4096 = b / 4096 := by
  unfold isInSamePage
  rw [decide_eq_true_eq]
  rfl

def mergedChunk (c d : Chunk) : Chunk := ⟨c.address, c.size + d.size, false⟩

lemma mergedChunk_stop (htouch : c.stop = d.address) : (mergedChunk c d).stop = d.stop := by
  unfold mergedChunk Chunk.stop at *
  simp only []
  omega

/-- Two holes of a page that touch are merged. -/
lemma Tiling.merge (ht : Tiling m₀ s) (hc : c ∈ s.chunks) (hd : d ∈ s.chunks)
    (hcfree : c.is_allocated = false) (hdfree : d.is_allocated = false)
    (htouch : c.stop = d.address) (hpage : c.address / 4096 = d.address / 4096) :
    ∃ s', s.Merge2Holes c d = some s' ∧ Tiling m₀ s' ∧ SamePointers s s' ∧
      ∀ e, e ∈ s'.chunks ↔ e = mergedChunk c d ∨ e ≠ c ∧ e ≠ d ∧ e ∈ s.chunks := by
  obtain ⟨s', hs', hchanged⟩ := ht.indexed.merge2Holes hc hd hcfree hdfree htouch
  have hlayout := ht.layout.erase d
  have hne : c ≠ d := by
    rintro rfl
    have hpos := ht.layout.nonempty c hc
    omega
  have hc' : c ∈ s.chunks.erase d := ht.layout.mem_erase.mpr ⟨hne, hc⟩
  have hstop := mergedChunk_stop htouch
  have hposC := ht.layout.nonempty c hc
  have hposD := ht.layout.nonempty d hd
  have hmem : ∀ e, e ∈ mergedChunk c d :: (s.chunks.erase d).erase c ↔
      e = mergedChunk c d ∨ e ≠ c ∧ e ≠ d ∧ e ∈ s.chunks := by
    intro e
    rw [List.mem_cons, hlayout.mem_erase, ht.layout.mem_erase]
  refine ⟨s', hs', ?_, ⟨hchanged.live, ?_⟩, ?_⟩
  · apply ht.replace hchanged
    · intro x
      change Taken (mergedChunk c d :: (s.chunks.erase d).erase c) x ↔ _
      have haddress : (mergedChunk c d).address = c.address := rfl
      rw [Taken, covers_cons, hstop, haddress, Taken, covers_erase hd, covers_erase hc']
      constructor
      · rintro (hx | hx)
        · by_cases hxc : x < c.stop
          · exact .inr (.inl ⟨hx.1, hxc⟩)
          · exact .inl ⟨by omega, hx.2⟩
        · exact .inr (.inr hx)
      · rintro (hx | hx | hx)
        · exact .inl ⟨by omega, hx.2⟩
        · exact .inl ⟨hx.1, by omega⟩
        · exact .inr hx
    · intro e he
      obtain rfl | ⟨-, -, hold⟩ := (hmem e).mp he
      · right
        have hpageD := ht.onePage hd hdfree
        refine ⟨hstop.trans_le (ht.bound d hd), .inl ?_⟩
        rw [hstop, ← hpageD]
        exact hpage
      · exact .inl hold
  · have hperm := hchanged.chunks.filter fun c => c.is_allocated
    have herase := (List.perm_cons_erase hd).trans ((List.perm_cons_erase hc').cons d)
    have hfilter := herase.filter fun c => c.is_allocated
    rw [List.filter_cons_of_neg (by simp [hdfree]), List.filter_cons_of_neg (by simp [hcfree])]
      at hfilter
    rw [List.filter_cons_of_neg (by simp)] at hperm
    exact hperm.trans hfilter.symm
  · intro e
    rw [hchanged.chunks.mem_iff]
    exact hmem e

section Forward

lemma Merging.next_touches (hm : Merging m₀ s h) (hnext : nextItem Chunk.address s.chunks h = some d)
    (hpage : h.address / 4096 = d.address / 4096) : h.stop = d.address := by
  obtain ⟨hd, hlt, -⟩ := hm.tiling.layout.nextItem_some hnext
  have hone := hm.tiling.onePage hm.mem hm.free
  have hpos := hm.tiling.layout.nonempty h hm.mem
  have hne : h ≠ d := by
    rintro rfl
    exact Nat.lt_irrefl _ hlt
  have hle : h.stop ≤ d.address := by
    have hposD := hm.tiling.layout.nonempty d hd
    obtain hle | hle := hm.tiling.layout.disjoint hm.mem hd hne
    · exact hle
    · omega
  have hcovers : Taken s.chunks h.stop := by
    apply hm.tiling.whole h.address h.stop (by omega)
    exact ⟨h, hm.mem, le_rfl, hpos⟩
  exact hm.tiling.layout.next_touches hm.mem hcovers hnext

/-- The hole absorbs the hole behind it. -/
lemma Merging.mergeForward (hm : Merging m₀ s h) :
    ∃ s' h', s.mergeForward h = some s' ∧ Merging m₀ s' h' ∧ RightMerged s' h' ∧
      SamePointers s s' ∧ h'.address = h.address ∧
      ∀ c ∈ s'.chunks, c ≠ h' → c ∈ s.chunks := by
  have hfind := hm.tiling.layout.lowerBound_start hm.mem
  unfold Manager.mergeForward
  rw [hfind, Option.bind_some]
  -- without a merge nothing touches the hole
  have hrest : (∀ d, nextItem Chunk.address s.chunks h = some d → d.is_allocated = false →
      h.address / 4096 ≠ d.address / 4096) → RightMerged s h := by
    intro hnot d hd hdfree htouch
    exact hnot d (hm.tiling.layout.next_of_touches hm.mem hd htouch) hdfree
  cases hnext : nextItem Chunk.address s.chunks h with
  | none =>
    refine ⟨s, h, rfl, hm, ?_, .refl s, rfl, fun c hc _ => hc⟩
    apply hrest
    intro d hd
    rw [hnext] at hd
    cases hd
  | some d =>
    obtain ⟨hd, hlt, -⟩ := hm.tiling.layout.nextItem_some hnext
    by_cases hmerge : (isInSamePage h.address d.address && !d.is_allocated) = true
    · rw [Bool.and_eq_true, isInSamePage_iff, Bool.not_eq_true'] at hmerge
      have htouch := hm.next_touches hnext hmerge.1
      obtain ⟨s', hs', htiling, hsame, hmem⟩ :=
        hm.tiling.merge hm.mem hd hm.free hmerge.2 htouch hmerge.1
      have hdh : d ≠ h := by
        rintro rfl
        exact Nat.lt_irrefl _ hlt
      have hold : ∀ c ∈ s'.chunks, c ≠ mergedChunk h d → c ≠ h ∧ c ≠ d ∧ c ∈ s.chunks :=
        fun c hc hne => ((hmem c).mp hc).resolve_left hne
      refine ⟨s', mergedChunk h d, ?_, ⟨htiling, (hmem _).mpr (.inl rfl), rfl, ?_, ?_⟩, ?_, hsame,
        rfl, fun c hc hne => (hold c hc hne).2.2⟩
      · have hcond : (isInSamePage h.address d.address && !d.is_allocated) = true := by
          rw [Bool.and_eq_true, isInSamePage_iff, Bool.not_eq_true']
          exact hmerge
        simp only [hcond, if_true, hs']
      · intro a ha b hb hane hbne
        obtain ⟨hah, -, ha⟩ := hold a ha hane
        obtain ⟨hbh, -, hb⟩ := hold b hb hbne
        exact hm.separated a ha b hb hah hbh
      · intro a ha hane
        obtain ⟨hah, -, ha⟩ := hold a ha hane
        exact hm.parts a ha hah
      · intro e he hefree htouch'
        rw [mergedChunk_stop htouch] at htouch'
        have hposD := hm.tiling.layout.nonempty d hd
        have hposH := hm.tiling.layout.nonempty h hm.mem
        have hne : e ≠ mergedChunk h d := by
          rintro rfl
          change d.stop = h.address at htouch'
          omega
        obtain ⟨heh, -, he⟩ := hold e he hne
        have hsep := hm.separated d hd e he hdh heh hmerge.2 hefree htouch'
        change h.address / 4096 ≠ _
        rwa [hmerge.1]
    · have hcond : (isInSamePage h.address d.address && !d.is_allocated) = false := by
        simpa using hmerge
      refine ⟨s, h, ?_, hm, ?_, .refl s, rfl, fun c hc _ => hc⟩
      · simp only [hcond, Bool.false_eq_true, if_false]
      · apply hrest
        intro e he hefree hpage
        obtain rfl := Option.some.inj (hnext.symm.trans he)
        apply hmerge
        rw [Bool.and_eq_true, isInSamePage_iff, Bool.not_eq_true']
        exact ⟨hpage, hefree⟩

end Forward

section Back

lemma Merging.prev_touches (hm : Merging m₀ s h) (hprev : prevItem Chunk.address s.chunks h = some c)
    (hpage : h.address / 4096 = c.address / 4096) : c.stop = h.address := by
  obtain ⟨hc, hlt, -⟩ := hm.tiling.layout.prevItem_some hprev
  have hpos := hm.tiling.layout.nonempty c hc
  have hcovers : Taken s.chunks (h.address - 1) := by
    apply hm.tiling.whole c.address (h.address - 1) (by omega)
    exact ⟨c, hc, le_rfl, hpos⟩
  exact hm.tiling.layout.prev_touches hm.mem hcovers hprev

/-- The hole in front absorbs the hole, if its address is still there. -/
lemma Merging.mergeBack (hm : Merging m₀ s h) (hright : RightMerged s h)
    (hstale : ∀ c ∈ s.chunks, c.is_allocated = false → c.stop = h.address →
      c.address / 4096 = h.address / 4096 → stale = c.address) :
    ∃ s' h', s.mergeBack h.address stale = some (s', h'.address) ∧ Merging m₀ s' h' ∧
      RightMerged s' h' ∧ LeftMerged s' h' ∧ SamePointers s s' := by
  have hfind := hm.tiling.layout.lowerBound_start hm.mem
  unfold Manager.mergeBack
  rw [hfind, Option.bind_some]
  have hrest : (∀ c, prevItem Chunk.address s.chunks h = some c → c.is_allocated = false →
      h.address / 4096 ≠ c.address / 4096) → LeftMerged s h := by
    intro hnot c hc hcfree htouch hpage
    exact hnot c (hm.tiling.layout.prev_of_touches hm.mem hc htouch) hcfree hpage.symm
  cases hprev : prevItem Chunk.address s.chunks h with
  | none =>
    refine ⟨s, h, rfl, hm, hright, ?_, .refl s⟩
    apply hrest
    intro c hc
    rw [hprev] at hc
    cases hc
  | some c =>
    obtain ⟨hc, hlt, -⟩ := hm.tiling.layout.prevItem_some hprev
    by_cases hmerge : (isInSamePage h.address c.address && !c.is_allocated) = true
    · rw [Bool.and_eq_true, isInSamePage_iff, Bool.not_eq_true'] at hmerge
      have htouch := hm.prev_touches hprev hmerge.1
      obtain ⟨s', hs', htiling, hsame, hmem⟩ :=
        hm.tiling.merge hc hm.mem hmerge.2 hm.free htouch hmerge.1.symm
      have hch : c ≠ h := by
        rintro rfl
        exact Nat.lt_irrefl _ hlt
      have hold : ∀ e ∈ s'.chunks, e ≠ mergedChunk c h → e ≠ c ∧ e ≠ h ∧ e ∈ s.chunks :=
        fun e he hne => ((hmem e).mp he).resolve_left hne
      have hposC := hm.tiling.layout.nonempty c hc
      have hposH := hm.tiling.layout.nonempty h hm.mem
      refine ⟨s', mergedChunk c h, ?_, ⟨htiling, (hmem _).mpr (.inl rfl), rfl, ?_, ?_⟩, ?_, ?_,
        hsame⟩
      · have hcond : (isInSamePage h.address c.address && !c.is_allocated) = true := by
          rw [Bool.and_eq_true, isInSamePage_iff, Bool.not_eq_true']
          exact hmerge
        rw [hstale c hc hmerge.2 htouch hmerge.1.symm]
        simp only [hcond, if_true, hs', Option.map_some]
        rfl
      · intro a ha b hb hane hbne
        obtain ⟨-, hah, ha⟩ := hold a ha hane
        obtain ⟨-, hbh, hb⟩ := hold b hb hbne
        exact hm.separated a ha b hb hah hbh
      · intro a ha hane
        obtain ⟨-, hah, ha⟩ := hold a ha hane
        exact hm.parts a ha hah
      · intro e he hefree htouch'
        rw [mergedChunk_stop htouch] at htouch'
        have hne : e ≠ mergedChunk c h := by
          rintro rfl
          change h.stop = c.address at htouch'
          omega
        obtain ⟨-, -, he⟩ := hold e he hne
        have hsep := hright e he hefree htouch'
        change c.address / 4096 ≠ _
        rwa [← hmerge.1]
      · intro e he hefree htouch'
        change e.stop = c.address at htouch'
        have hne : e ≠ mergedChunk c h := by
          rintro rfl
          rw [mergedChunk_stop htouch] at htouch'
          omega
        obtain ⟨-, heh, he⟩ := hold e he hne
        exact hm.separated e he c hc heh hch hefree hmerge.2 htouch'
    · have hcond : (isInSamePage h.address c.address && !c.is_allocated) = false := by
        simpa using hmerge
      refine ⟨s, h, ?_, hm, hright, ?_, .refl s⟩
      · simp only [hcond, Bool.false_eq_true, if_false]
      · apply hrest
        intro e he hefree hpage
        obtain rfl := Option.some.inj (hprev.symm.trans he)
        apply hmerge
        rw [Bool.and_eq_true, isInSamePage_iff, Bool.not_eq_true']
        exact ⟨hpage, hefree⟩

end Back

section Release

/-- A hole that takes its whole page goes with it. -/
lemma Merging.releasePage (hm : Merging m₀ s h) (hright : RightMerged s h)
    (hleft : LeftMerged s h) (hfuel : 2 ^ 20 ≤ fuel) :
    ∃ s', s.releasePage fuel h.address = some s' ∧ Heap m₀ s' ∧ SamePointers s s' := by
  have hfind := hm.tiling.layout.lowerBound_start hm.mem
  have hsize : PageSize.toNat = 4096 := rfl
  have hone := hm.tiling.onePage hm.mem hm.free
  have hbound := hm.tiling.bound h hm.mem
  unfold Manager.releasePage
  rw [hfind, Option.bind_some, hsize]
  split_ifs with hfull
  · have haligned : h.address % 4096 = 0 := by
      unfold Chunk.stop at hone
      omega
    have hstop : h.stop = h.address + 4096 := by
      unfold Chunk.stop
      rw [hfull]
    obtain ⟨memory, hmemory, hpages⟩ := unmap_spec s.memory haligned (by omega) hfuel
    have hindexed : Indexed { s with memory := memory } :=
      ⟨hm.tiling.indexed.layout, hm.tiling.indexed.holes⟩
    obtain ⟨s', hs', hchanged⟩ := hindexed.removeHole hm.mem hm.free
    have htiling : Tiling m₀ s' := by
      apply hm.tiling.removePages hm.mem haligned (by rw [hfull]) _ hchanged
      intro x
      rw [hstop]
      constructor
      · intro hx
        exact (hpages x).1 (by omega)
      · intro hx
        exact (hpages x).2 (by omega)
    have hold : ∀ c ∈ s'.chunks, c ≠ h ∧ c ∈ s.chunks := fun c hc =>
      hm.tiling.layout.mem_erase.mp (hchanged.chunks.mem_iff.mp hc)
    refine ⟨s', ?_, ⟨htiling, ?_, ?_⟩, hchanged.live, ?_⟩
    · rw [DeallocatePage, hmemory, Option.map_some, Option.bind_some]
      exact hs'
    · intro c hc d hd
      obtain ⟨hch, hc⟩ := hold c hc
      obtain ⟨hdh, hd⟩ := hold d hd
      exact hm.separated c hc d hd hch hdh
    · intro c hc
      obtain ⟨hch, hc⟩ := hold c hc
      exact hm.parts c hc hch
    · have hperm := hchanged.chunks.filter fun c => c.is_allocated
      have hfilter := (List.perm_cons_erase hm.mem).filter fun c => c.is_allocated
      rw [List.filter_cons_of_neg (by simp [hm.free])] at hfilter
      exact hperm.trans hfilter.symm
  · refine ⟨s, rfl, ⟨hm.tiling, ?_, ?_⟩, .refl s⟩
    · intro c hc d hd hcfree hdfree htouch
      by_cases hch : c = h
      · subst hch
        exact hright d hd hdfree htouch
      · by_cases hdh : d = h
        · subst hdh
          exact hleft c hc hcfree htouch
        · exact hm.separated c hc d hd hch hdh hcfree hdfree htouch
    · intro c hc hcfree
      by_cases hch : c = h
      · rwa [hch]
      · exact hm.parts c hc hch hcfree

end Release

lemma Merging.mergeHoles (hm : Merging m₀ s h) (hfuel : 2 ^ 20 ≤ fuel)
    (hstale : ∀ c ∈ s.chunks, c.is_allocated = false → c.stop = h.address →
      c.address / 4096 = h.address / 4096 → stale = c.address) :
    ∃ s', s.MergeHoles fuel h stale = some s' ∧ Heap m₀ s' ∧ SamePointers s s' := by
  obtain ⟨s₁, h₁, hs₁, hm₁, hright₁, hsame₁, haddress, hold⟩ := hm.mergeForward
  have hstale₁ : ∀ c ∈ s₁.chunks, c.is_allocated = false → c.stop = h₁.address →
      c.address / 4096 = h₁.address / 4096 → stale = c.address := by
    intro c hc hcfree htouch hpage
    have hne : c ≠ h₁ := by
      rintro rfl
      have hpos := hm₁.tiling.layout.nonempty c hc
      omega
    rw [haddress] at htouch hpage
    exact hstale c (hold c hc hne) hcfree htouch hpage
  obtain ⟨s₂, h₂, hs₂, hm₂, hright₂, hleft₂, hsame₂⟩ := hm₁.mergeBack hright₁ hstale₁
  obtain ⟨s₃, hs₃, hheap, hsame₃⟩ := hm₂.releasePage hright₂ hleft₂ hfuel
  refine ⟨s₃, ?_, hheap, (hsame₁.trans hsame₂).trans hsame₃⟩
  rw [haddress] at hs₂
  unfold MergeHoles
  rw [hm.free]
  simp only [Bool.false_eq_true, if_false, hs₁, hs₂, hs₃, Option.bind_some]

end OISA.Memory.Manager
