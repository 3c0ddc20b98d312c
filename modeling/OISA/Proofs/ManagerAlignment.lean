import Mathlib.Data.List.TakeWhile
import OISA.Proofs.FreeRegions
import OISA.Proofs.ManagerRuns

/-!
# Alignment of allocations

`Allocate` returns the address of a page that it maps, whatever the alignment: for a small size
the chunk is made at the next multiple of the alignment, which another function returns, and it is
not asked whether the page can contain it.
-/

namespace OISA.Memory.Manager

open OISA.Lib

variable {m₀ m : Memory} {s s' : Manager} {hole : Chunk} {fuel size alignment address : ℕ}
  {a : BitVec 32}

section Spec

variable (m : Memory) (s : Manager) (fuel size alignment : ℕ)

def usedHole : Option Chunk :=
  match (s.holes.dropWhile fun h => h.1 < size).find? fun h => canHoleContain h.2 size alignment
  with
  | some h => some h.2
  | none => (s.RequestOnePage fuel MapBaseAddress).map Prod.snd

def NoUnderflow (hole : Chunk) (size alignment : ℕ) : Prop :=
  let aligned_address := getNextAlignedAddress hole.address alignment
  hole.address ≤ aligned_address ∧ size ≤ hole.size ∧
    aligned_address - hole.address ≤ hole.size - size

structure AllocatesAligned : Prop where
  returned : ∀ s' address, s.Allocate fuel size alignment = some (s', address) →
    alignment ∣ address ∧
      ∃ c ∈ s'.chunks, c.is_allocated = true ∧ c.address = address ∧ size ≤ c.size
  sizes : size ≤ 4096 → ∀ hole, usedHole s fuel size alignment = some hole →
    NoUnderflow hole size alignment

def FirstPage (a : BitVec 32) : Prop :=
  FreeRegion m PageSize a ∧ MapBaseAddress.toNat ≤ a.toNat ∧
    ∀ q, MapBaseAddress.toNat ≤ q.toNat → FreeRegion m PageSize q → a.toNat ≤ q.toNat

/-- The last region of this size that is not mapped and ends with the page of the base address or
before it -/
def LastPages (size a : BitVec 32) : Prop :=
  FreeRegion m size a ∧ a ≠ 0#32 ∧ a.toNat + size.toNat ≤ MapBaseAddress.toNat + 4096 ∧
    ∀ q, q ≠ 0#32 → q.toNat + size.toNat ≤ MapBaseAddress.toNat + 4096 → FreeRegion m size q →
      q.toNat ≤ a.toNat

/-- A hole can contain the size, or the pages to map start at a multiple of the alignment. -/
structure PagesFit : Prop where
  small : size ≤ 4096 → (∀ h ∈ s.holes, canHoleContain h.2 size alignment = false) →
    ∀ a, FirstPage s.memory a → a.toNat ≠ 0xFFFFF000 → alignment ∣ a.toNat
  large : 4096 < size → size ≤ 0xFFFFF000 →
    ∀ a, LastPages s.memory (.ofNat 32 (pageAlignedSize size)) a → alignment ∣ a.toNat

end Spec

section Searches

lemma mapSpace_iff_firstPage (hfuel : 2 ^ 20 ≤ fuel) :
    m.MapSpace fuel MapBaseAddress PageSize = some a ∧ a ≠ -1#32 ↔ FirstPage m a := by
  have hbase : MapBaseAddress ≠ 0#32 := by decide
  have haligned : pageOffset LogPageSize MapBaseAddress = 0#32 := rfl
  have hpage : pageOffset LogPageSize PageSize = 0#32 := rfl
  obtain ⟨r, hr, hfound⟩ := mapSpace_first (m := m) haligned hpage (by decide)
  have hr' := mapSpace_mono hfuel hr
  rw [hr', Option.some.injEq]
  constructor
  · rintro ⟨rfl, hne⟩
    obtain ⟨rfl, -⟩ | ⟨hfree, ⟨-, hle⟩, hnearest⟩ := hfound
    · exact absurd rfl hne
    · refine ⟨hfree, hle, ?_⟩
      intro q hq hfreeQ
      have hdist := hnearest q hfreeQ
      rw [BitVec.toNat_sub_of_le (BitVec.le_def.mpr hle),
        BitVec.toNat_sub_of_le (BitVec.le_def.mpr hq)] at hdist
      omega
  · rintro ⟨hfree, hle, hfirst⟩
    obtain ⟨-, hnone⟩ | ⟨hfreeR, ⟨-, hleR⟩, hnearest⟩ := hfound
    · exact absurd hfree (hnone a ⟨hbase, hle⟩)
    · have hdist := hnearest a hfree
      rw [BitVec.toNat_sub_of_le (BitVec.le_def.mpr hle),
        BitVec.toNat_sub_of_le (BitVec.le_def.mpr hleR)] at hdist
      have hra := hfirst r hleR hfreeR
      exact ⟨BitVec.eq_of_toNat_eq (by omega), hfree.ne_last⟩

lemma mapSpaceDown_iff_lastPages (hfuel : 2 ^ 20 < fuel) {size : BitVec 32}
    (hs : pageOffset LogPageSize size = 0#32) (hsize : size ≠ 0#32) :
    m.MapSpaceDown fuel MapBaseAddress size = some a ∧ a ≠ -1#32 ↔ LastPages m size a := by
  have haligned : pageOffset LogPageSize MapBaseAddress = 0#32 := rfl
  obtain ⟨r, hr, hfound⟩ := mapSpaceDown_last (m := m) haligned hs hsize
  have hr' := mapSpaceDown_mono hfuel.le hr
  have hmod := toNat_mod_of_aligned hs
  -- the nearest region ends last
  have hdist : ∀ p q, FreeRegion m size p → FreeRegion m size q →
      p.toNat + size.toNat ≤ MapBaseAddress.toNat + 4096 →
      q.toNat + size.toNat ≤ MapBaseAddress.toNat + 4096 →
      ((MapBaseAddress - lastPage size p).toNat ≤ (MapBaseAddress - lastPage size q).toNat ↔
        q.toNat ≤ p.toNat) := by
    intro p q hp hq hle hle'
    have hlastP := hp.toNat_lastPage hmod hsize
    have hlastQ := hq.toNat_lastPage hmod hsize
    have hpos : size.toNat ≠ 0 := fun h => hsize (BitVec.eq_of_toNat_eq h)
    rw [BitVec.toNat_sub_of_le (BitVec.le_def.mpr (by omega)),
      BitVec.toNat_sub_of_le (BitVec.le_def.mpr (by omega))]
    omega
  rw [hr', Option.some.injEq]
  constructor
  · rintro ⟨rfl, hne⟩
    obtain ⟨rfl, -⟩ | ⟨hfree, ⟨hzero, hle⟩, hnearest⟩ := hfound
    · exact absurd rfl hne
    · refine ⟨hfree, hzero, hle, ?_⟩
      intro q _ hq hfreeQ
      exact (hdist r q hfree hfreeQ hle hq).mp (hnearest q hfreeQ)
  · rintro ⟨hfree, hzero, hle, hlast⟩
    obtain ⟨-, hnone⟩ | ⟨hfreeR, ⟨hzeroR, hleR⟩, hnearest⟩ := hfound
    · exact absurd hfree (hnone a ⟨hzero, hle⟩)
    · have hra := hlast r hzeroR hleR hfreeR
      have har := (hdist r a hfreeR hfree hleR hle).mp (hnearest a hfree)
      exact ⟨BitVec.eq_of_toNat_eq (by omega), hfree.ne_last⟩

end Searches

section Holes

lemma find_hole_none_iff (h : Indexed s) :
    ((s.holes.dropWhile fun h => h.1 < size).find? fun h =>
        canHoleContain h.2 size alignment) = none ↔
      ∀ h ∈ s.holes, canHoleContain h.2 size alignment = false := by
  rw [List.find?_eq_none]
  constructor
  · intro hnone entry hentry
    rw [← List.takeWhile_append_dropWhile (p := fun h : ℕ × Chunk => h.1 < size) (l := s.holes),
      List.mem_append] at hentry
    cases hentry with
    | inl hsmaller =>
      -- the hole is smaller than the size
      have hlt := List.mem_takeWhile_imp hsmaller
      have hmem := (List.takeWhile_sublist _).subset hsmaller
      rw [h.holes.mem_iff, List.mem_map] at hmem
      obtain ⟨c, -, rfl⟩ := hmem
      rw [decide_eq_true_eq] at hlt
      change c.size < size at hlt
      unfold canHoleContain
      rw [decide_eq_false_iff_not]
      change ¬ size + _ ≤ c.size
      omega
    | inr hrest => exact Bool.eq_false_iff.mpr (hnone entry hrest)
  · intro hall entry hentry
    exact Bool.eq_false_iff.mp (hall entry ((List.dropWhile_sublist _).subset hentry))

lemma noUnderflow_iff (hpos : 0 < alignment) :
    NoUnderflow hole size alignment ↔ canHoleContain hole size alignment = true := by
  have hle := le_getNextAlignedAddress hole.address hpos
  unfold NoUnderflow canHoleContain
  rw [decide_eq_true_eq]
  dsimp only
  omega

lemma allocate_of_allocate (hallocate : s.allocate fuel size alignment = some (s', address)) :
    ∃ s'', s.Allocate fuel size alignment = some (s'', address) ∧ s''.chunks = s'.chunks := by
  unfold Allocate
  rw [hallocate]
  exact ⟨_, rfl, rfl⟩

end Holes

section Exact

lemma toNat_pageAlignedSize (hle : size ≤ 0xFFFFF000) :
    (BitVec.ofNat 32 (pageAlignedSize size)).toNat = (size + 4095) / 4096 * 4096 := by
  change (BitVec.ofNat 32 ((size + 4095) / 4096 * 4096)).toNat = _
  rw [BitVec.toNat_ofNat, Nat.mod_eq_of_lt (by omega)]

lemma large_iff_lastPages (hlarge : 4096 < size) (hle : size ≤ 0xFFFFF000)
    (hfuel : 2 ^ 20 < fuel) :
    m.MapSpaceDown fuel MapBaseAddress (.ofNat 32 (pageAlignedSize size)) = some a ∧ a ≠ -1#32 ↔
      LastPages m (.ofNat 32 (pageAlignedSize size)) a := by
  have hnat := toNat_pageAlignedSize hle
  apply mapSpaceDown_iff_lastPages hfuel
  · apply aligned_of_toNat
    rw [hnat, Nat.mul_mod_left]
  · intro hzero
    rw [hzero, BitVec.toNat_zero] at hnat
    omega

lemma allocateLarge_none (hlarge : 0xFFFFF000 < size) (hlt : size < 2 ^ 32) :
    s.AllocateLarge fuel size = none := by
  have hzero : BitVec.ofNat 32 (pageAlignedSize size) = 0#32 := by
    apply BitVec.eq_of_toNat_eq
    change (BitVec.ofNat 32 ((size + 4095) / 4096 * 4096)).toNat = 0
    rw [BitVec.toNat_ofNat]
    omega
  unfold AllocateLarge
  dsimp only
  rw [hzero, mapSpaceDown_eq fuel rfl rfl]
  cases hsearch : MapSpaceDown.loop s.memory 0#32 fuel MapBaseAddress MapBaseAddress with
  | none => rfl
  | some r =>
    rw [mapSpaceDown_empty hsearch, Option.bind_some, if_pos rfl]

lemma allocate_none (hlarge : 0xFFFFF000 < size) (hlt : size < 2 ^ 32) :
    s.allocate fuel size alignment = none := by
  have hpage : PageSize.toNat < size := by
    change 4096 < size
    omega
  rw [Manager.allocate, if_pos hpage, allocateLarge_none hlarge hlt]
  exact ite_self _

lemma PagesFit.pagesAligned (hfit : PagesFit s size alignment) (hheap : Heap m₀ s)
    (hfuel : 2 ^ 20 < fuel) (hle : size ≤ 0xFFFFF000) : PagesAligned fuel s size alignment where
  large := by
    intro hlarge a ha hne
    exact hfit.large hlarge hle a ((large_iff_lastPages hlarge hle hfuel).mp ⟨ha, hne⟩)
  small := by
    intro hsmall hnone s' hole hrequest
    obtain ⟨a, ha, hrest⟩ := Option.bind_eq_some_iff.mp hrequest
    split_ifs at hrest with hoverflow
    obtain ⟨memory, hmap, hcreate⟩ := Option.bind_eq_some_iff.mp hrest
    have hlast : a.toNat ≠ 0xFFFFF000 := by
      intro heq
      rw [map_last heq] at hmap
      cases hmap
    obtain ⟨s₁, hs₁, _⟩ := hheap.requestFoundPage hfuel.le ha hoverflow hlast
    obtain ⟨rfl, rfl⟩ := Prod.mk.inj (Option.some.inj (hs₁.symm.trans hrequest))
    exact hfit.small hsmall ((find_hole_none_iff hheap.indexed).mp hnone) a
      ((mapSpace_iff_firstPage hfuel.le).mp ⟨ha, hoverflow⟩) hlast

/-- Allocations that are right, and live pointers -/
def Fits (s : Manager) : Op → Prop
  | .allocate size alignment =>
    0 < size ∧ size < 2 ^ 32 ∧ 0 < alignment ∧ PagesFit s size alignment
  | .free address _ => ∃ a ∈ s.live, a.address = address

lemma heap_run {ops : List Op} (hfuel : 2 ^ 20 < fuel)
    (halong : Along (step fuel) (fun op s => Fits s op ∧ ReadsAddress s op) ops { memory := m₀ })
    (hrun : run (step fuel) ops { memory := m₀ } = some s) : Heap m₀ s := by
  have hlive : Live m₀ s := by
    apply run_invariant _ (live_init m₀) halong hrun
    intro op q q' hq hop hstep
    cases op with
    | allocate size alignment =>
      obtain ⟨hsize, hlt, hpos, hfit⟩ := hop.1
      obtain ⟨⟨q₁, address⟩, hq₁, rfl⟩ := Option.map_eq_some_iff.mp hstep
      by_cases hle : size ≤ 0xFFFFF000
      · exact hq.allocate hsize hle hpos (hfit.pagesAligned hq.heap hfuel hle) hfuel.le hq₁
      · obtain ⟨x, hx, _⟩ := Option.map_eq_some_iff.mp hq₁
        rw [allocate_none (by omega) hlt] at hx
        cases hx
    | free address stale =>
      obtain ⟨a, ha, rfl⟩ := hop.1
      obtain ⟨q₁, hq₁, hlive⟩ := hq.free ha hop.2 hfuel.le
      obtain rfl := Option.some.inj (hq₁.symm.trans hstep)
      exact hlive
  exact hlive.heap

lemma Allocated.mem {a : Allocation} (h : Allocated m₀ s s' a) : a.chunk ∈ s'.chunks := by
  have hmem := h.pointers.mem_iff.mpr List.mem_cons_self
  exact (List.mem_filter.mp hmem).1

lemma PagesFit.allocatesAligned (hfit : PagesFit s size alignment) (hheap : Heap m₀ s)
    (hsize : 0 < size) (hlt : size < 2 ^ 32) (hpos : 0 < alignment) (hfuel : 2 ^ 20 < fuel) :
    AllocatesAligned s fuel size alignment where
  returned := by
    intro s' address h
    obtain ⟨⟨s₁, a⟩, hs₁, heq⟩ := Option.map_eq_some_iff.mp h
    obtain ⟨rfl, rfl⟩ := Prod.mk.inj heq
    by_cases hle : size ≤ 0xFFFFF000
    · have hallocated := hheap.allocate hsize hle hpos (hfit.pagesAligned hheap hfuel hle)
        hfuel.le hs₁
      exact ⟨hallocated.aligned, _, hallocated.mem, rfl, rfl,
        Allocation.size_le ⟨a, size, alignment⟩⟩
    · rw [allocate_none (by omega) hlt] at hs₁
      cases hs₁
  sizes := by
    intro hsmall hole hused
    rw [noUnderflow_iff hpos]
    unfold usedHole at hused
    split at hused
    case h_1 entry hfind =>
      have hfits := List.find?_some hfind
      rw [← Option.some.inj hused]
      exact hfits
    case h_2 hnone =>
      obtain ⟨⟨s₁, hole'⟩, hrequest, rfl⟩ := Option.map_eq_some_iff.mp hused
      have hdvd := (hfit.pagesAligned hheap hfuel (by omega)).small hsmall hnone s₁ hole' hrequest
      obtain ⟨_, _, _, _, _, hfull, _, _⟩ := hheap.requestOnePage hfuel.le hrequest
      rw [canHoleContain_iff hpos, getNextAlignedAddress_of_dvd hpos hdvd]
      unfold Chunk.stop
      dsimp only
      omega

lemma AllocatesAligned.small (h : AllocatesAligned s fuel size alignment) (hheap : Heap m₀ s)
    (hsize : 0 < size) (hpos : 0 < alignment) (hle : alignment ≤ 4096) (hfuel : 2 ^ 20 < fuel)
    (hsmall : size ≤ 4096)
    (hnone : ∀ h ∈ s.holes, canHoleContain h.2 size alignment = false)
    (hpage : FirstPage s.memory a) (hlast : a.toNat ≠ 0xFFFFF000) : alignment ∣ a.toNat := by
  obtain ⟨ha, hne⟩ := (mapSpace_iff_firstPage hfuel.le).mpr hpage
  have hfind := (find_hole_none_iff hheap.indexed).mpr hnone
  obtain ⟨s₁, hs₁, htiling, _, hmem, _⟩ := hheap.requestFoundPage hfuel.le ha hne hlast
  have hused : usedHole s fuel size alignment = some ⟨a.toNat, 4096, false⟩ := by
    unfold usedHole
    rw [hfind]
    dsimp only
    rw [hs₁]
    rfl
  have hfits := (noUnderflow_iff hpos).mp (h.sizes hsmall _ hused)
  obtain ⟨s₂, hs₂, _⟩ := htiling.indexed.allocateIn hmem rfl hsize hpos hfits
  have hallocate : s.allocate fuel size alignment = some (s₂, a.toNat) := by
    rw [Manager.allocate, if_neg (show ¬ PageSize.toNat < alignment from not_lt.mpr hle),
      if_neg (show ¬ PageSize.toNat < size from not_lt.mpr hsmall), hfind]
    dsimp only
    rw [hs₁, Option.bind_some, hs₂]
    rfl
  obtain ⟨s₃, hs₃, _⟩ := allocate_of_allocate hallocate
  exact (h.returned s₃ a.toNat hs₃).1

lemma AllocatesAligned.large (h : AllocatesAligned s fuel size alignment) (hheap : Heap m₀ s)
    (hle : alignment ≤ 4096) (hfuel : 2 ^ 20 < fuel) (hlarge : 4096 < size)
    (hbound : size ≤ 0xFFFFF000)
    (hpages : LastPages s.memory (.ofNat 32 (pageAlignedSize size)) a) :
    alignment ∣ a.toNat := by
  obtain ⟨ha, hne⟩ := (large_iff_lastPages hlarge hbound hfuel).mpr hpages
  obtain ⟨s₁, hs₁, _⟩ := hheap.allocateLarge hlarge hbound hfuel.le ha hne
  have hallocate : s.allocate fuel size alignment = some (s₁, a.toNat) := by
    rw [Manager.allocate, if_neg (show ¬ PageSize.toNat < alignment from not_lt.mpr hle),
      if_pos (show PageSize.toNat < size from hlarge)]
    exact hs₁
  obtain ⟨s₂, hs₂, _⟩ := allocate_of_allocate hallocate
  exact (h.returned s₂ a.toNat hs₂).1

/-- In a heap an allocation is right if and only if a hole can contain it, or the pages that are
mapped for it start at a multiple of the alignment. -/
theorem allocate_aligned_iff (m₀ : Memory) (s : Manager) (hheap : Heap m₀ s) (size alignment : ℕ)
    (hsize : 0 < size) (hlt : size < 2 ^ 32) (hpos : 0 < alignment) (hle : alignment ≤ 4096)
    (fuel : ℕ) (hfuel : 2 ^ 20 < fuel) :
    AllocatesAligned s fuel size alignment ↔ PagesFit s size alignment := by
  constructor
  · intro h
    refine ⟨?_, ?_⟩
    · intro hsmall hnone a hpage hlast
      exact h.small hheap hsize hpos hle hfuel hsmall hnone hpage hlast
    · intro hlarge hbound a hpages
      exact h.large hheap hle hfuel hlarge hbound hpages
  · intro hfit
    exact hfit.allocatesAligned hheap hsize hlt hpos hfuel

theorem allocate_aligned_sixteen :
    AllocatesAligned { memory := {} } (2 ^ 20 + 1) 16 8 ↔ PagesFit { memory := {} } 16 8 :=
  allocate_aligned_iff {} { memory := {} } (live_init {}).heap 16 8 (by decide) (by decide)
    (by decide) (by decide) (2 ^ 20 + 1) (by decide)

/-- The address of a new page is not a multiple of three. -/
theorem allocate_not_aligned :
    ¬∀ m₀ s, Heap m₀ s → ∀ size alignment fuel, 0 < size → size < 2 ^ 32 → 0 < alignment →
      alignment ≤ 4096 → 2 ^ 20 < fuel → AllocatesAligned s fuel size alignment := by
  intro h
  have hright := h {} { memory := {} } (live_init {}).heap 16 3 (2 ^ 20 + 1) (by decide)
    (by decide) (by decide) (by decide) (by decide)
  have hreturned : (({ memory := {} } : Manager).Allocate (2 ^ 20 + 1) 16 3).map Prod.snd =
      some 0xb7fb0000 := by decide +kernel
  obtain ⟨⟨s', address⟩, hs', rfl⟩ := Option.map_eq_some_iff.mp hreturned
  exact absurd (hright.returned s' _ hs').1 (by decide)

end Exact

end OISA.Memory.Manager
