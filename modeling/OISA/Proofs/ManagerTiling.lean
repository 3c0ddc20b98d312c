import OISA.Memory.Manager
import OISA.Proofs.PageRanges

/-!
# The chunks of the manager
-/

/-!
## Chunks and holes

What the functions of the manager do to the chunks, up to their order. The multimap of holes stays
in step with the map of chunks.
-/

namespace OISA.Memory.Manager

open OISA.Lib

variable {s s₁ s' : Manager} {c d hole : Chunk} {addr size alignment : ℕ} {chunks : List Chunk}

def holeEntry (c : Chunk) : ℕ × Chunk := (c.size, c)

/-- The holes are exactly the free chunks, under their sizes. -/
structure Indexed (s : Manager) : Prop where
  layout : Layout Chunk.address Chunk.stop s.chunks
  holes : s.holes.Perm ((s.chunks.filter fun c => !c.is_allocated).map holeEntry)

structure Changed (s s' : Manager) (chunks : List Chunk) : Prop where
  indexed : Indexed s'
  chunks : s'.chunks.Perm chunks
  memory : s'.memory = s.memory
  live : s'.live = s.live

section Updates

lemma insertChunk_spec (h : Layout Chunk.address Chunk.stop s.chunks) (hpos : c.address < c.stop)
    (hvacant : Vacant Chunk.address Chunk.stop s.chunks c.address c.stop) :
    s.insertChunk c = some { s with chunks := insertItem Chunk.address c s.chunks } ∧
      Layout Chunk.address Chunk.stop (insertItem Chunk.address c s.chunks) := by
  refine ⟨?_, h.insert hpos hvacant⟩
  have hnew : (s.chunks.any fun d => d.address = c.address) = false := by
    rw [List.any_eq_false]
    intro d hd
    rw [decide_eq_true_eq]
    intro heq
    have hnonempty := h.nonempty d hd
    obtain hbefore | hafter := hvacant d hd
    · omega
    · omega
  rw [insertChunk, hnew]
  rfl

lemma Indexed.createHole (h : Indexed s) (addr size : ℕ) (hpos : 0 < size)
    (hvacant : Vacant Chunk.address Chunk.stop s.chunks addr (addr + size)) :
    ∃ s', s.CreateHole addr size = some (s', ⟨addr, size, false⟩) ∧
      Changed s s' (⟨addr, size, false⟩ :: s.chunks) := by
  obtain ⟨hinsert, hlayout⟩ := insertChunk_spec (c := ⟨addr, size, false⟩) h.layout
    (Nat.lt_add_of_pos_right hpos) hvacant
  have hperm := insertItem_perm Chunk.address ⟨addr, size, false⟩ s.chunks
  have hcreate : s.CreateHole addr size = some ({ s with
      chunks := insertItem Chunk.address ⟨addr, size, false⟩ s.chunks
      holes := s.holes.orderedInsert (fun a b => a.1 < b.1) (size, ⟨addr, size, false⟩) },
      ⟨addr, size, false⟩) := by
    simp only [CreateHole, hinsert, Option.map_some]
  refine ⟨_, hcreate, ⟨hlayout, ?_⟩, hperm, rfl, rfl⟩
  have hfilter := (hperm.filter fun c => !c.is_allocated).map holeEntry
  rw [List.filter_cons_of_pos (by rfl), List.map_cons] at hfilter
  exact (List.perm_orderedInsert _ _ _).trans ((h.holes.cons _).trans hfilter.symm)

lemma Indexed.createPointer (h : Indexed s) (addr size : ℕ) (hpos : 0 < size)
    (hvacant : Vacant Chunk.address Chunk.stop s.chunks addr (addr + size)) :
    ∃ s', s.CreatePointer addr size = some s' ∧ Changed s s' (⟨addr, size, true⟩ :: s.chunks) := by
  obtain ⟨hinsert, hlayout⟩ := insertChunk_spec (c := ⟨addr, size, true⟩) h.layout
    (Nat.lt_add_of_pos_right hpos) hvacant
  have hperm := insertItem_perm Chunk.address ⟨addr, size, true⟩ s.chunks
  refine ⟨_, hinsert, ⟨hlayout, ?_⟩, hperm, rfl, rfl⟩
  have hfilter := (hperm.filter fun c => !c.is_allocated).map holeEntry
  rw [List.filter_cons_of_neg (by simp)] at hfilter
  exact h.holes.trans hfilter.symm

lemma Indexed.removeHole (h : Indexed s) (hmem : c ∈ s.chunks) (hfree : c.is_allocated = false) :
    ∃ s', s.RemoveHole c = some s' ∧ Changed s s' (s.chunks.erase c) := by
  have hremove : s.RemoveHole c = some { s with
      holes := s.holes.erase (c.size, c)
      chunks := s.chunks.erase c } := by
    unfold RemoveHole
    rw [hfree]
    rfl
  refine ⟨_, hremove, ⟨h.layout.erase c, ?_⟩, .refl _, rfl, rfl⟩
  have hperm := ((List.perm_cons_erase hmem).filter fun c => !c.is_allocated).map holeEntry
  rw [List.filter_cons_of_pos (by simp [hfree]), List.map_cons] at hperm
  have herase := (h.holes.trans hperm).erase (c.size, c)
  rw [holeEntry, List.erase_cons_head] at herase
  exact herase

lemma Indexed.removePointer (h : Indexed s) (hmem : c ∈ s.chunks)
    (hallocated : c.is_allocated = true) :
    Changed s (s.RemovePointer c) (s.chunks.erase c) := by
  refine ⟨⟨h.layout.erase c, ?_⟩, .refl _, rfl, rfl⟩
  have hperm := ((List.perm_cons_erase hmem).filter fun c => !c.is_allocated).map holeEntry
  rw [List.filter_cons_of_neg (by simp [hallocated])] at hperm
  exact h.holes.trans hperm

lemma Indexed.mem_holes (h : Indexed s) {n : ℕ} (hmem : (n, c) ∈ s.holes) :
    c ∈ s.chunks ∧ c.is_allocated = false := by
  rw [h.holes.mem_iff, List.mem_map] at hmem
  obtain ⟨d, hd, heq⟩ := hmem
  obtain ⟨-, rfl⟩ := Prod.mk.inj heq
  simpa using hd

end Updates

section Split

def restChunks (addr size : ℕ) : List Chunk := if 0 < size then [⟨addr, size, false⟩] else []

lemma mem_restChunks : c ∈ restChunks addr size ↔ 0 < size ∧ c = ⟨addr, size, false⟩ := by
  unfold restChunks
  split_ifs with hpos <;> simp [hpos]

lemma Indexed.createRest (h : Indexed s) (addr size : ℕ)
    (hvacant : Vacant Chunk.address Chunk.stop s.chunks addr (addr + size)) :
    ∃ s', s.CreateRest addr size = some s' ∧ Changed s s' (restChunks addr size ++ s.chunks) := by
  unfold CreateRest restChunks
  split_ifs with hpos
  · obtain ⟨s', hs', hchanged⟩ := h.createHole addr size hpos hvacant
    exact ⟨s', by rw [hs']; rfl, hchanged⟩
  · exact ⟨s, rfl, h, .refl _, rfl, rfl⟩

lemma vacant_restChunks {lo hi : ℕ} (h : addr + size ≤ lo ∨ hi ≤ addr) :
    Vacant Chunk.address Chunk.stop (restChunks addr size) lo hi := by
  intro c hc
  obtain ⟨-, rfl⟩ := mem_restChunks.mp hc
  exact h

lemma covers_restChunks {x : ℕ} : Covers Chunk.address Chunk.stop (restChunks addr size) x ↔
    addr ≤ x ∧ x < addr + size := by
  unfold Covers
  constructor
  · rintro ⟨c, hc, hx⟩
    obtain ⟨-, rfl⟩ := mem_restChunks.mp hc
    exact hx
  · intro hx
    exact ⟨⟨addr, size, false⟩, mem_restChunks.mpr ⟨by omega, rfl⟩, hx⟩

def pieces (hole : Chunk) (size aligned_address : ℕ) : List Chunk :=
  let hole1_size := aligned_address - hole.address
  ⟨aligned_address, size, true⟩ ::
    (restChunks (hole.address + hole1_size + size) (hole.size - size - hole1_size) ++
      restChunks hole.address hole1_size)

lemma le_getNextAlignedAddress (addr : ℕ) (hpos : 0 < alignment) :
    addr ≤ getNextAlignedAddress addr alignment := by
  unfold getNextAlignedAddress
  have hdiv := Nat.div_add_mod' (addr + alignment - 1) alignment
  have hmod := Nat.mod_lt (addr + alignment - 1) hpos
  omega

lemma dvd_getNextAlignedAddress : alignment ∣ getNextAlignedAddress addr alignment :=
  Nat.dvd_mul_left _ _

lemma getNextAlignedAddress_of_dvd (hpos : 0 < alignment) (h : alignment ∣ addr) :
    getNextAlignedAddress addr alignment = addr := by
  obtain ⟨q, rfl⟩ := h
  unfold getNextAlignedAddress
  rw [Nat.add_sub_assoc hpos, Nat.mul_add_div hpos, Nat.div_eq_of_lt (by omega), Nat.add_zero,
    Nat.mul_comm]

lemma canHoleContain_iff (hpos : 0 < alignment) : canHoleContain hole size alignment = true ↔
    getNextAlignedAddress hole.address alignment + size ≤ hole.stop := by
  have hle := le_getNextAlignedAddress hole.address hpos
  unfold canHoleContain Chunk.stop
  rw [decide_eq_true_eq]
  omega

/-- `AllocateIn` replaces the hole by its pieces. -/
lemma Indexed.allocateIn (h : Indexed s) (hmem : hole ∈ s.chunks)
    (hfree : hole.is_allocated = false) (hsize : 0 < size) (hpos : 0 < alignment)
    (hfits : canHoleContain hole size alignment = true) :
    ∃ s', s.AllocateIn hole size alignment =
        some (s', getNextAlignedAddress hole.address alignment) ∧
      Changed s s' (pieces hole size (getNextAlignedAddress hole.address alignment) ++
        s.chunks.erase hole) := by
  have hle := le_getNextAlignedAddress hole.address hpos
  have hstop := (canHoleContain_iff hpos).mp hfits
  have hvacant := h.layout.vacant_erase hmem
  unfold AllocateIn pieces
  set aligned_address := getNextAlignedAddress hole.address alignment
  have hstop' : aligned_address + size ≤ hole.address + hole.size := hstop
  change Vacant Chunk.address Chunk.stop _ hole.address (hole.address + hole.size) at hvacant
  obtain ⟨s₁, hs₁, hch₁⟩ := h.removeHole hmem hfree
  have hvacant₁ : Vacant Chunk.address Chunk.stop s₁.chunks hole.address
      (hole.address + hole.size) := (vacant_perm hch₁.chunks).mpr hvacant
  obtain ⟨s₂, hs₂, hch₂⟩ := hch₁.indexed.createRest hole.address
    (aligned_address - hole.address) (hvacant₁.mono le_rfl (by omega))
  have hvacant₂ : Vacant Chunk.address Chunk.stop s₂.chunks aligned_address
      (hole.address + hole.size) := by
    apply (vacant_perm hch₂.chunks).mpr
    apply Vacant.append
    · exact vacant_restChunks (.inl (by omega))
    · exact hvacant₁.mono hle le_rfl
  obtain ⟨s₃, hs₃, hch₃⟩ := hch₂.indexed.createRest
    (hole.address + (aligned_address - hole.address) + size)
    (hole.size - size - (aligned_address - hole.address))
    (hvacant₂.mono (by omega) (by omega))
  have hvacant₃ : Vacant Chunk.address Chunk.stop s₃.chunks aligned_address
      (aligned_address + size) := by
    apply (vacant_perm hch₃.chunks).mpr
    apply Vacant.append
    · exact vacant_restChunks (.inr (by omega))
    · exact hvacant₂.mono le_rfl hstop'
  obtain ⟨s₄, hs₄, hch₄⟩ := hch₃.indexed.createPointer _ _ hsize hvacant₃
  -- the sizes of the holes do not underflow
  have hsub : ∀ {a b : ℕ}, b ≤ a → unsignedSub a b = a - b := fun h => if_pos h
  refine ⟨s₄, ?_, hch₄.indexed, ?_, ?_, ?_⟩
  · have hbehind : aligned_address - hole.address ≤ hole.size - size := by omega
    simp only [hsub hle, hsub (by omega : size ≤ hole.size), hsub hbehind, hs₁, hs₂, hs₃, hs₄,
      Option.bind_some, Option.map_some]
  · have hperm₂ := hch₂.chunks.trans (hch₁.chunks.append_left _)
    have hperm₃ := hch₃.chunks.trans (hperm₂.append_left _)
    rw [List.cons_append, List.append_assoc]
    exact hch₄.chunks.trans (hperm₃.cons _)
  · exact hch₄.memory.trans (hch₃.memory.trans (hch₂.memory.trans hch₁.memory))
  · exact hch₄.live.trans (hch₃.live.trans (hch₂.live.trans hch₁.live))

end Split

section Merge

lemma Indexed.merge2Holes (h : Indexed s) (hc : c ∈ s.chunks) (hd : d ∈ s.chunks)
    (hcfree : c.is_allocated = false) (hdfree : d.is_allocated = false)
    (hnext : c.stop = d.address) :
    ∃ s', s.Merge2Holes c d = some s' ∧
      Changed s s' (⟨c.address, c.size + d.size, false⟩ :: (s.chunks.erase d).erase c) := by
  have hne : c ≠ d := by
    rintro rfl
    have hnonempty := h.layout.nonempty c hc
    omega
  obtain ⟨s₁, hs₁, hch₁⟩ := h.removeHole hd hdfree
  have hc₁ : c ∈ s₁.chunks := hch₁.chunks.mem_iff.mpr (h.layout.mem_erase.mpr ⟨hne, hc⟩)
  obtain ⟨s₂, hs₂, hch₂⟩ := hch₁.indexed.removeHole hc₁ hcfree
  have hperm₂ : s₂.chunks.Perm ((s.chunks.erase d).erase c) :=
    hch₂.chunks.trans (hch₁.chunks.erase c)
  have hnext' : c.address + c.size = d.address := hnext
  have hvacant : Vacant Chunk.address Chunk.stop s₂.chunks c.address
      (c.address + (c.size + d.size)) := by
    apply (vacant_perm hperm₂).mpr
    intro e he
    have hlayout := h.layout.erase d
    rw [hlayout.mem_erase, h.layout.mem_erase] at he
    obtain ⟨hec, hed, he⟩ := he
    have hdisjC := h.layout.disjoint he hc hec
    have hdisjD := h.layout.disjoint he hd hed
    have hpos := h.layout.nonempty e he
    unfold Chunk.stop at hdisjC hdisjD hpos ⊢
    omega
  have hpos : 0 < c.size + d.size := by
    have hnonempty := h.layout.nonempty c hc
    unfold Chunk.stop at hnonempty
    omega
  obtain ⟨s₃, hs₃, hch₃⟩ := hch₂.indexed.createHole _ _ hpos hvacant
  refine ⟨s₃, ?_, hch₃.indexed, hch₃.chunks.trans (hperm₂.cons _), ?_, ?_⟩
  · unfold Merge2Holes
    rw [hcfree, hdfree, if_neg (by simpa using hnext')]
    simp only [hs₁, hs₂, hs₃, Option.bind_some, Option.map_some]
  · exact hch₃.memory.trans (hch₂.memory.trans hch₁.memory)
  · exact hch₃.live.trans (hch₂.live.trans hch₁.live)

end Merge

end OISA.Memory.Manager

/-!
## Chunks tile the managed pages

The pages that the manager mapped are exactly those its chunks take, and a chunk that is not a
large pointer lies in one page.
-/

namespace OISA.Memory.Manager

open OISA.Lib

variable {m₀ memory : Memory} {s s' : Manager} {c d hole : Chunk} {fuel size alignment : ℕ}
  {chunks : List Chunk}

def Shaped (c : Chunk) : Prop :=
  c.address / 4096 = (c.stop - 1) / 4096 ∨
    c.is_allocated = true ∧ c.address % 4096 = 0 ∧ c.size % 4096 = 0 ∧ 4096 < c.size

/-- Whether a chunk takes an address. -/
abbrev Taken (chunks : List Chunk) (x : ℕ) : Prop := Covers Chunk.address Chunk.stop chunks x

structure Tiling (m₀ : Memory) (s : Manager) : Prop where
  indexed : Indexed s
  bound : ∀ c ∈ s.chunks, c.stop ≤ 0xFFFFF000
  shaped : ∀ c ∈ s.chunks, Shaped c
  whole : ∀ x y, x / 4096 = y / 4096 → Taken s.chunks x → Taken s.chunks y
  mapped : ∀ x : BitVec 32, Taken s.chunks x.toNat →
    m₀.getPage x = none ∧ (s.memory.getPage x).isSome
  others : ∀ x : BitVec 32, ¬ Taken s.chunks x.toNat → s.memory.getPage x = m₀.getPage x

def Separated (s : Manager) : Prop :=
  ∀ c ∈ s.chunks, ∀ d ∈ s.chunks, c.is_allocated = false → d.is_allocated = false →
    c.stop = d.address → c.address / 4096 ≠ d.address / 4096

/-- The state between two calls: no hole takes a whole page. -/
structure Heap (m₀ : Memory) (s : Manager) : Prop extends Tiling m₀ s where
  separated : Separated s
  parts : ∀ c ∈ s.chunks, c.is_allocated = false → c.size ≠ 4096

section Tiling

lemma Tiling.layout (h : Tiling m₀ s) : Layout Chunk.address Chunk.stop s.chunks :=
  h.indexed.layout

lemma Tiling.nonempty (h : Tiling m₀ s) (hc : c ∈ s.chunks) : 0 < c.size := by
  have hpos := h.layout.nonempty c hc
  unfold Chunk.stop at hpos
  omega

lemma Tiling.onePage (h : Tiling m₀ s) (hc : c ∈ s.chunks) (hfree : c.is_allocated = false) :
    c.address / 4096 = (c.stop - 1) / 4096 := by
  obtain hone | ⟨hallocated, -⟩ := h.shaped c hc
  · exact hone
  · rw [hfree] at hallocated
    cases hallocated

lemma Tiling.replace (h : Tiling m₀ s) (hchanged : Changed s s' chunks)
    (htaken : ∀ x, Taken chunks x ↔ Taken s.chunks x)
    (hnew : ∀ c ∈ chunks, c ∈ s.chunks ∨ c.stop ≤ 0xFFFFF000 ∧ Shaped c) : Tiling m₀ s' := by
  have hsame : ∀ x, Taken s'.chunks x ↔ Taken s.chunks x :=
    fun x => (covers_perm hchanged.chunks).trans (htaken x)
  refine ⟨hchanged.indexed, ?_, ?_, ?_, ?_, ?_⟩
  · intro c hc
    obtain hold | ⟨hbound, -⟩ := hnew c (hchanged.chunks.mem_iff.mp hc)
    · exact h.bound c hold
    · exact hbound
  · intro c hc
    obtain hold | ⟨-, hshaped⟩ := hnew c (hchanged.chunks.mem_iff.mp hc)
    · exact h.shaped c hold
    · exact hshaped
  · intro x y hxy hx
    rw [hsame] at hx ⊢
    exact h.whole x y hxy hx
  · intro x hx
    rw [hsame] at hx
    rw [hchanged.memory]
    exact h.mapped x hx
  · intro x hx
    rw [hsame] at hx
    rw [hchanged.memory]
    exact h.others x hx

end Tiling

section Pages

lemma Tiling.vacant (h : Tiling m₀ s) {lo hi : ℕ} (hlo : lo < hi) (hhi : hi ≤ 2 ^ 32)
    (hfree : ∀ x : BitVec 32, lo ≤ x.toNat → x.toNat < hi → s.memory.getPage x = none) :
    Vacant Chunk.address Chunk.stop s.chunks lo hi := by
  intro c hc
  by_contra hnot
  rw [not_or, not_le, not_le] at hnot
  have hpos := h.layout.nonempty c hc
  have hx : (BitVec.ofNat 32 (max lo c.address)).toNat = max lo c.address := by
    rw [BitVec.toNat_ofNat, Nat.mod_eq_of_lt]
    omega
  have hmapped := h.mapped (.ofNat 32 (max lo c.address)) ⟨c, hc, by omega, by omega⟩
  rw [hfree _ (by omega) (by omega)] at hmapped
  cases hmapped.2

/-- A chunk of pages that were mapped for it. -/
lemma Tiling.addPages (h : Tiling m₀ s) (haddress : c.address % 4096 = 0)
    (hsize : c.size % 4096 = 0) (hbound : c.stop ≤ 0xFFFFF000) (hshaped : Shaped c)
    (hnone : ∀ x : BitVec 32, c.address ≤ x.toNat → x.toNat < c.stop →
      s.memory.getPage x = none)
    (hmap : ∀ x : BitVec 32, (c.address ≤ x.toNat ∧ x.toNat < c.stop →
        (memory.getPage x).isSome) ∧
      (¬ (c.address ≤ x.toNat ∧ x.toNat < c.stop) → memory.getPage x = s.memory.getPage x))
    (hchanged : Changed { s with memory := memory } s' (c :: s.chunks)) : Tiling m₀ s' := by
  have htaken : ∀ x, Taken s'.chunks x ↔ (c.address ≤ x ∧ x < c.stop) ∨ Taken s.chunks x :=
    fun x => (covers_perm hchanged.chunks).trans covers_cons
  have hmemory : s'.memory = memory := hchanged.memory
  have hold : ∀ x : BitVec 32, c.address ≤ x.toNat ∧ x.toNat < c.stop →
      ¬ Taken s.chunks x.toNat := by
    intro x hx hcontra
    have hmapped := h.mapped x hcontra
    rw [hnone x hx.1 hx.2] at hmapped
    cases hmapped.2
  refine ⟨hchanged.indexed, ?_, ?_, ?_, ?_, ?_⟩
  · intro d hd
    obtain rfl | hd := List.mem_cons.mp (hchanged.chunks.mem_iff.mp hd)
    · exact hbound
    · exact h.bound d hd
  · intro d hd
    obtain rfl | hd := List.mem_cons.mp (hchanged.chunks.mem_iff.mp hd)
    · exact hshaped
    · exact h.shaped d hd
  · intro x y hxy hx
    rw [htaken] at hx ⊢
    obtain hx | hx := hx
    · left
      unfold Chunk.stop at hx ⊢
      omega
    · exact .inr (h.whole x y hxy hx)
  · intro x hx
    rw [htaken] at hx
    rw [hmemory]
    by_cases hin : c.address ≤ x.toNat ∧ x.toNat < c.stop
    · refine ⟨?_, (hmap x).1 hin⟩
      rw [← h.others x (hold x hin)]
      exact hnone x hin.1 hin.2
    · rw [(hmap x).2 hin]
      exact h.mapped x (hx.resolve_left hin)
  · intro x hx
    rw [htaken, not_or] at hx
    rw [hmemory, (hmap x).2 hx.1]
    exact h.others x hx.2

lemma Tiling.removePages (h : Tiling m₀ s) (hc : c ∈ s.chunks) (haddress : c.address % 4096 = 0)
    (hsize : c.size % 4096 = 0)
    (hunmap : ∀ x : BitVec 32, (c.address ≤ x.toNat ∧ x.toNat < c.stop →
        memory.getPage x = none) ∧
      (¬ (c.address ≤ x.toNat ∧ x.toNat < c.stop) → memory.getPage x = s.memory.getPage x))
    (hchanged : Changed { s with memory := memory } s' (s.chunks.erase c)) : Tiling m₀ s' := by
  have hlayout := h.layout
  have htaken : ∀ x, Taken s'.chunks x ↔
      Taken s.chunks x ∧ ¬ (c.address ≤ x ∧ x < c.stop) := by
    intro x
    rw [Taken, covers_perm hchanged.chunks, Taken, covers_erase hc]
    constructor
    · intro hx
      refine ⟨.inr hx, ?_⟩
      obtain ⟨d, hd, hdx⟩ := hx
      rw [hlayout.mem_erase] at hd
      intro hcx
      exact hd.1 (hlayout.unique hd.2 hc hdx hcx)
    · rintro ⟨hin | hin, hout⟩
      · exact absurd hin hout
      · exact hin
  have hmemory : s'.memory = memory := hchanged.memory
  refine ⟨hchanged.indexed, ?_, ?_, ?_, ?_, ?_⟩
  · intro d hd
    exact h.bound d (List.mem_of_mem_erase (hchanged.chunks.mem_iff.mp hd))
  · intro d hd
    exact h.shaped d (List.mem_of_mem_erase (hchanged.chunks.mem_iff.mp hd))
  · intro x y hxy hx
    rw [htaken] at hx ⊢
    refine ⟨h.whole x y hxy hx.1, ?_⟩
    have hout := hx.2
    unfold Chunk.stop at hout ⊢
    omega
  · intro x hx
    rw [htaken] at hx
    rw [hmemory, (hunmap x).2 hx.2]
    exact h.mapped x hx.1
  · intro x hx
    rw [htaken, not_and_or, not_not] at hx
    rw [hmemory]
    by_cases hin : c.address ≤ x.toNat ∧ x.toNat < c.stop
    · rw [(hunmap x).1 hin, (h.mapped x ⟨c, hc, hin⟩).1]
    · rw [(hunmap x).2 hin]
      exact h.others x (hx.resolve_right hin)

end Pages

section Split

lemma taken_pieces {aligned_address x : ℕ} (hle : hole.address ≤ aligned_address)
    (hstop : aligned_address + size ≤ hole.stop) :
    Taken (pieces hole size aligned_address) x ↔ hole.address ≤ x ∧ x < hole.stop := by
  unfold pieces
  simp only [Taken, covers_cons, covers_append, covers_restChunks]
  unfold Chunk.stop at hstop ⊢
  simp only []
  omega

lemma mem_pieces {aligned_address : ℕ} (hle : hole.address ≤ aligned_address)
    (hstop : aligned_address + size ≤ hole.stop) (hmem : c ∈ pieces hole size aligned_address) :
    c = ⟨aligned_address, size, true⟩ ∨ c.is_allocated = false ∧ 0 < c.size ∧
      (c.address = hole.address ∧ c.stop = aligned_address ∨
        c.address = aligned_address + size ∧ c.stop = hole.stop) := by
  unfold pieces at hmem
  simp only [List.mem_cons, List.mem_append, mem_restChunks] at hmem
  unfold Chunk.stop at hstop ⊢
  obtain rfl | ⟨hrest, rfl⟩ | ⟨hrest, rfl⟩ := hmem
  · exact .inl rfl
  · refine .inr ⟨rfl, hrest, .inr ⟨?_, ?_⟩⟩
    · change hole.address + (aligned_address - hole.address) + size = aligned_address + size
      omega
    · change hole.address + (aligned_address - hole.address) + size +
        (hole.size - size - (aligned_address - hole.address)) = hole.address + hole.size
      omega
  · refine .inr ⟨rfl, hrest, .inl ⟨rfl, ?_⟩⟩
    change hole.address + (aligned_address - hole.address) = aligned_address
    omega

/-- An allocation in a hole. Before it no other hole takes a whole page, after it none does. -/
lemma Tiling.allocateIn (h : Tiling m₀ s) (hmem : hole ∈ s.chunks)
    (hfree : hole.is_allocated = false) (hsize : 0 < size) (hpos : 0 < alignment)
    (hfits : canHoleContain hole size alignment = true) (hseparated : Separated s)
    (hparts : ∀ c ∈ s.chunks, c ≠ hole → c.is_allocated = false → c.size ≠ 4096) :
    ∃ s', s.AllocateIn hole size alignment =
        some (s', getNextAlignedAddress hole.address alignment) ∧
      Heap m₀ s' ∧ s'.live = s.live ∧
      (s'.chunks.filter (·.is_allocated)).Perm
        (⟨getNextAlignedAddress hole.address alignment, size, true⟩ ::
          s.chunks.filter (·.is_allocated)) := by
  obtain ⟨s', hs', hchanged⟩ := h.indexed.allocateIn hmem hfree hsize hpos hfits
  have hle := le_getNextAlignedAddress hole.address hpos
  have hstop := (canHoleContain_iff hpos).mp hfits
  have hpage := h.onePage hmem hfree
  have hboundHole := h.bound hole hmem
  set aligned_address := getNextAlignedAddress hole.address alignment
  have htaken : ∀ x, Taken (pieces hole size aligned_address ++ s.chunks.erase hole) x ↔
      Taken s.chunks x := by
    intro x
    have hpiece := taken_pieces (x := x) hle hstop
    rw [Taken, covers_append, Taken, covers_erase hmem]
    exact or_congr_left hpiece
  have hpieces : ∀ c ∈ s'.chunks, c ∈ pieces hole size aligned_address ∨
      c ≠ hole ∧ c ∈ s.chunks := by
    intro c hc
    obtain hpiece | hold := List.mem_append.mp (hchanged.chunks.mem_iff.mp hc)
    · exact .inl hpiece
    · exact .inr (h.layout.mem_erase.mp hold)
  have htiling : Tiling m₀ s' := by
    apply h.replace hchanged htaken
    intro c hc
    obtain hpiece | hold := List.mem_append.mp hc
    · right
      obtain rfl | ⟨-, hposC, ⟨ha, hb⟩ | ⟨ha, hb⟩⟩ := mem_pieces hle hstop hpiece
      · unfold Shaped Chunk.stop at *
        change aligned_address + size ≤ _ ∧
          (aligned_address / 4096 = (aligned_address + size - 1) / 4096 ∨ _)
        omega
      · unfold Shaped Chunk.stop at *
        omega
      · unfold Shaped Chunk.stop at *
        omega
    · exact .inl (h.layout.mem_erase.mp hold).2
  refine ⟨s', hs', ⟨htiling, ?_, ?_⟩, hchanged.live, ?_⟩
  · -- a hole of the pieces touches the pointer, or what touched the old hole
    intro c hc d hd hcfree hdfree htouch
    have hnonC := htiling.nonempty hc
    have hnonD := htiling.nonempty hd
    have hptr : (⟨aligned_address, size, true⟩ : Chunk) ∈ s'.chunks := by
      apply hchanged.chunks.mem_iff.mpr
      exact List.mem_append_left _ List.mem_cons_self
    have hcptr : c ≠ ⟨aligned_address, size, true⟩ := by
      rintro rfl
      cases hcfree
    have hdptr : d ≠ ⟨aligned_address, size, true⟩ := by
      rintro rfl
      cases hdfree
    have hdisjC := htiling.layout.disjoint hc hptr hcptr
    have hdisjD := htiling.layout.disjoint hd hptr hdptr
    have hnonHole := h.nonempty hmem
    obtain hpieceC | ⟨hneC, holdC⟩ := hpieces c hc
    · obtain heq | ⟨-, -, ⟨ha, hb⟩ | ⟨ha, hb⟩⟩ := mem_pieces hle hstop hpieceC
      · exact absurd heq hcptr
      · -- the hole in front of the pointer
        unfold Chunk.stop at *
        simp only [] at hdisjD
        omega
      · obtain hpieceD | ⟨hneD, holdD⟩ := hpieces d hd
        · obtain heq | ⟨-, -, ⟨hc', hd'⟩ | ⟨hc', hd'⟩⟩ := mem_pieces hle hstop hpieceD
          · exact absurd heq hdptr
          · unfold Chunk.stop at *
            omega
          · unfold Chunk.stop at *
            omega
        · have hold := hseparated hole hmem d holdD hfree hdfree (by rw [← hb]; exact htouch)
          unfold Chunk.stop at *
          omega
    · obtain hpieceD | ⟨hneD, holdD⟩ := hpieces d hd
      · obtain heq | ⟨-, -, ⟨ha, hb⟩ | ⟨ha, hb⟩⟩ := mem_pieces hle hstop hpieceD
        · exact absurd heq hdptr
        · have hold := hseparated c holdC hole hmem hcfree hfree (by rw [← ha]; exact htouch)
          rwa [ha]
        · -- the hole behind the pointer
          unfold Chunk.stop at *
          simp only [] at hdisjC
          omega
      · exact hseparated c holdC d holdD hcfree hdfree htouch
  · intro c hc hcfree
    obtain hpieceC | ⟨hneC, holdC⟩ := hpieces c hc
    · obtain heq | ⟨-, -, ⟨ha, hb⟩ | ⟨ha, hb⟩⟩ := mem_pieces hle hstop hpieceC
      · rw [heq] at hcfree
        cases hcfree
      · unfold Chunk.stop at *
        omega
      · unfold Chunk.stop at *
        omega
    · exact hparts c holdC hneC hcfree
  · have hperm := hchanged.chunks.filter fun c => c.is_allocated
    have hrest : ∀ addr size, (restChunks addr size).filter (fun c => c.is_allocated) = [] := by
      intro addr size
      unfold restChunks
      split_ifs <;> rfl
    have hfilter := (List.perm_cons_erase hmem).filter fun c => c.is_allocated
    rw [List.filter_cons_of_neg (by simp [hfree])] at hfilter
    unfold pieces at hperm
    rw [List.filter_append, List.filter_cons_of_pos rfl, List.filter_append, hrest, hrest] at hperm
    exact hperm.trans (hfilter.symm.cons _)

end Split

end OISA.Memory.Manager
