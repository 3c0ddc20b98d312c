import OISA.Lib.Runs
import OISA.Proofs.ManagerHeap

/-!
# Runs of the memory manager

Along any run of allocations and deallocations the live allocations are disjoint and aligned and
lie in pages that the manager mapped, the chunks tile these pages, and the holes are indexed.
-/

namespace OISA.Memory.Manager

open OISA.Lib

variable {m₀ : Memory} {s s' : Manager} {c : Chunk} {op : Op} {fuel : ℕ}

def Managed (m₀ : Memory) (s : Manager) (x : BitVec 32) : Prop :=
  m₀.getPage x = none ∧ (s.memory.getPage x).isSome

/-- What holds of a manager that started in the memory `m₀`. -/
structure Sound (m₀ : Memory) (s : Manager) : Prop where
  disjoint : s.live.Pairwise fun a b =>
    a.address + a.size ≤ b.address ∨ b.address + b.size ≤ a.address
  inside : ∀ a ∈ s.live, a.address + a.size ≤ 2 ^ 32
  managed : ∀ a ∈ s.live, ∀ x : BitVec 32, a.address ≤ x.toNat → x.toNat < a.address + a.size →
    Managed m₀ s x
  aligned : ∀ a ∈ s.live, a.alignment ∣ a.address
  tiled : ∀ x : BitVec 32, Managed m₀ s x ↔
    ∃! c, c ∈ s.chunks ∧ c.address ≤ x.toNat ∧ x.toNat < c.stop
  holes : s.holes.Perm ((s.chunks.filter fun c => !c.is_allocated).map fun c => (c.size, c))
  separated : ∀ c ∈ s.chunks, ∀ d ∈ s.chunks, c.is_allocated = false → d.is_allocated = false →
    c.stop = d.address → c.address / 4096 ≠ d.address / 4096
  empty : s.live = [] → s.chunks = [] ∧ s.holes = [] ∧
    ∀ x : BitVec 32, s.memory.getPage x = m₀.getPage x

/-- Sizes from 1 to 2^31, alignments that are powers of two up to a page, and live pointers. -/
def Valid (s : Manager) : Op → Prop
  | .allocate size alignment => 0 < size ∧ size ≤ 2 ^ 31 ∧ ∃ k ≤ 12, alignment = 2 ^ k
  | .free address _ => ∃ a ∈ s.live, a.address = address

instance (s : Manager) (op : Op) : Decidable (Valid s op) :=
  match op with
  | .allocate _ alignment => inferInstanceAs (Decidable (_ ∧ _ ∧ ∃ k ≤ 12, alignment = 2 ^ k))
  | .free address _ => inferInstanceAs (Decidable (∃ a ∈ s.live, a.address = address))

instance (s : Manager) (op : Op) : Decidable (ReadsAddress s op) :=
  match op with
  | .allocate _ _ => inferInstanceAs (Decidable True)
  | .free _ _ => inferInstanceAs (Decidable (∀ c ∈ s.chunks, _))

structure Live (m₀ : Memory) (s : Manager) : Prop where
  heap : Heap m₀ s
  pointers : (s.live.map Allocation.chunk).Perm (s.chunks.filter (·.is_allocated))
  aligned : ∀ a ∈ s.live, a.alignment ∣ a.address
  positive : ∀ a ∈ s.live, 0 < a.size

section Steps

lemma Allocation.size_le (a : Allocation) : a.size ≤ a.chunk.size := by
  by_cases hlarge : 4096 < a.size
  · rw [Allocation.chunk_large hlarge]
    have hround : pageAlignedSize a.size = (a.size + 4095) / 4096 * 4096 := rfl
    change a.size ≤ pageAlignedSize a.size
    omega
  · rw [Allocation.chunk_small (not_lt.mp hlarge)]

lemma Live.mem_chunks (h : Live m₀ s) {a : Allocation} (ha : a ∈ s.live) :
    a.chunk ∈ s.chunks := by
  have hmem := h.pointers.mem_iff.mp (List.mem_map_of_mem ha)
  exact (List.mem_filter.mp hmem).1

lemma Live.allocate {size alignment address : ℕ} (h : Live m₀ s) (hsize : 0 < size)
    (hle : size ≤ 0xFFFFF000) (hpos : 0 < alignment) (hpages : PagesAligned fuel s size alignment)
    (hfuel : 2 ^ 20 ≤ fuel)
    (hallocate : s.Allocate fuel size alignment = some (s', address)) : Live m₀ s' := by
  obtain ⟨⟨s₁, a⟩, hs₁, heq⟩ := Option.map_eq_some_iff.mp hallocate
  obtain ⟨rfl, rfl⟩ := Prod.mk.inj heq
  have hallocated := h.heap.allocate hsize hle hpos hpages hfuel hs₁
  obtain ⟨⟨htiling, hseparated, hparts⟩, hlive, haligned, hpointers⟩ := hallocated
  refine ⟨⟨?_, hseparated, hparts⟩, ?_, ?_, ?_⟩
  · exact ⟨⟨htiling.indexed.layout, htiling.indexed.holes⟩, htiling.bound, htiling.shaped,
      htiling.whole, htiling.mapped, htiling.others⟩
  · change ((⟨a, size, alignment⟩ :: s₁.live).map Allocation.chunk).Perm _
    rw [hlive, List.map_cons]
    exact (h.pointers.cons _).trans hpointers.symm
  · intro b hb
    change b ∈ ⟨a, size, alignment⟩ :: s₁.live at hb
    rw [hlive] at hb
    obtain rfl | hb := List.mem_cons.mp hb
    · exact haligned
    · exact h.aligned b hb
  · intro b hb
    change b ∈ ⟨a, size, alignment⟩ :: s₁.live at hb
    rw [hlive] at hb
    obtain rfl | hb := List.mem_cons.mp hb
    · exact hsize
    · exact h.positive b hb

lemma Live.filter_live (h : Live m₀ s) {a : Allocation} (ha : a ∈ s.live) :
    ((s.live.filter fun b => b.address ≠ a.address).map Allocation.chunk).Perm
      ((s.chunks.filter (·.is_allocated)).erase a.chunk) := by
  have hlayout := h.heap.toTiling.layout
  have hmem := h.mem_chunks ha
  have hnodup : (s.chunks.filter (·.is_allocated)).Nodup := hlayout.nodup.filter _
  have hmap : (s.live.filter fun b => b.address ≠ a.address).map Allocation.chunk =
      (s.live.map Allocation.chunk).filter fun c => c.address ≠ a.address := by
    rw [List.filter_map]
    rfl
  have herase : (s.chunks.filter (·.is_allocated)).erase a.chunk =
      (s.chunks.filter (·.is_allocated)).filter fun c => c.address ≠ a.address := by
    rw [hnodup.erase_eq_filter]
    apply List.filter_congr
    intro c hc
    rw [List.mem_filter] at hc
    have hiff : c ≠ a.chunk ↔ c.address ≠ a.address := by
      constructor
      · intro hne heq
        exact hne (hlayout.eq_of_start hc.1 hmem heq)
      · rintro hne rfl
        exact hne rfl
    rw [Bool.eq_iff_iff, bne_iff_ne, decide_eq_true_eq]
    exact hiff
  rw [hmap, herase]
  exact h.pointers.filter _

lemma Live.free {stale : ℕ} (h : Live m₀ s) {a : Allocation} (ha : a ∈ s.live)
    (hread : ReadsAddress s (.free a.address stale)) (hfuel : 2 ^ 20 ≤ fuel) :
    ∃ s', s.Free fuel a.address stale = some s' ∧ Live m₀ s' := by
  obtain ⟨s₁, hs₁, ⟨htiling, hseparated, hparts⟩, hlive, hpointers⟩ :=
    h.heap.free (c := a.chunk) (h.mem_chunks ha) rfl hread hfuel
  have haddress : a.chunk.address = a.address := rfl
  rw [haddress] at hs₁
  refine ⟨{ s₁ with live := s₁.live.filter fun b => b.address ≠ a.address }, ?_,
    ⟨?_, hseparated, hparts⟩, ?_, ?_, ?_⟩
  · unfold Free
    rw [hs₁]
    rfl
  · exact ⟨⟨htiling.indexed.layout, htiling.indexed.holes⟩, htiling.bound, htiling.shaped,
      htiling.whole, htiling.mapped, htiling.others⟩
  · change ((s₁.live.filter fun b => b.address ≠ a.address).map Allocation.chunk).Perm _
    rw [hlive]
    exact (h.filter_live ha).trans hpointers.symm
  · intro b hb
    change b ∈ s₁.live.filter _ at hb
    rw [hlive] at hb
    exact h.aligned b (List.mem_filter.mp hb).1
  · intro b hb
    change b ∈ s₁.live.filter _ at hb
    rw [hlive] at hb
    exact h.positive b (List.mem_filter.mp hb).1

lemma Live.step (h : Live m₀ s) (hvalid : Valid s op) (hread : ReadsAddress s op)
    (hfuel : 2 ^ 20 ≤ fuel) (hstep : step fuel op s = some s') : Live m₀ s' := by
  cases op with
  | allocate size alignment =>
    obtain ⟨hsize, hle, halignment⟩ := hvalid
    obtain ⟨x, hx, rfl⟩ := Option.map_eq_some_iff.mp hstep
    have hpages : PagesAligned fuel s size alignment := h.heap.pagesAligned hfuel halignment
    obtain ⟨k, -, rfl⟩ := halignment
    exact h.allocate hsize (by omega) (Nat.two_pow_pos k) hpages hfuel hx
  | free address stale =>
    obtain ⟨a, ha, rfl⟩ := hvalid
    obtain ⟨s₁, hs₁, hlive⟩ := h.free ha hread hfuel
    obtain rfl := Option.some.inj (hs₁.symm.trans hstep)
    exact hlive

lemma live_init (m₀ : Memory) : Live m₀ { memory := m₀ } := by
  have hnot : ∀ x, ¬ Taken [] x := by
    rintro x ⟨c, hc, -⟩
    cases hc
  refine ⟨⟨⟨⟨Layout.nil, .refl _⟩, ?_, ?_, ?_, ?_, fun _ _ => rfl⟩, ?_, ?_⟩, .refl _, ?_, ?_⟩
  · exact fun c hc => absurd hc List.not_mem_nil
  · exact fun c hc => absurd hc List.not_mem_nil
  · exact fun x y _ hx => absurd hx (hnot x)
  · exact fun x hx => absurd hx (hnot x.toNat)
  · exact fun c hc => absurd hc List.not_mem_nil
  · exact fun c hc => absurd hc List.not_mem_nil
  · exact fun a ha => absurd ha List.not_mem_nil
  · exact fun a ha => absurd ha List.not_mem_nil

end Steps

section Sound

lemma Live.taken (h : Live m₀ s) (x : BitVec 32) : Managed m₀ s x ↔ Taken s.chunks x.toNat := by
  constructor
  · rintro ⟨hnone, hsome⟩
    by_contra hnot
    rw [h.heap.others x hnot, hnone] at hsome
    cases hsome
  · exact h.heap.mapped x

/-- Each page that is taken has a piece of a pointer. -/
lemma Heap.exists_pointer (h : Heap m₀ s) {x : ℕ} (hx : Taken s.chunks x) :
    ∃ d ∈ s.chunks, d.is_allocated = true ∧ d.address / 4096 ≤ x / 4096 ∧
      x / 4096 ≤ (d.stop - 1) / 4096 := by
  by_contra hnot
  have hfree : ∀ d ∈ s.chunks, ∀ y, d.address ≤ y → y < d.stop → x / 4096 = y / 4096 →
      d.is_allocated = false := by
    intro d hd y hle hlt hy
    by_contra hallocated
    exact hnot ⟨d, hd, by simpa using hallocated, by omega, by omega⟩
  have hpage : ∀ y, x / 4096 = y / 4096 → Taken s.chunks y := fun y hy => h.whole x y hy hx
  -- the hole that takes the first address of the page
  obtain ⟨d, hd, hle, hlt⟩ := hpage (x / 4096 * 4096) (by omega)
  have hfreeD := hfree d hd _ hle hlt (by omega)
  have honeD := h.toTiling.onePage hd hfreeD
  have hsizeD := h.parts d hd hfreeD
  have hstart : d.address / 4096 = x / 4096 := by omega
  have hend : x / 4096 = d.stop / 4096 := by
    unfold Chunk.stop at *
    omega
  -- and the hole that follows
  obtain ⟨e, he, hle', hlt'⟩ := hpage d.stop hend
  have hne : d ≠ e := by
    rintro rfl
    exact Nat.lt_irrefl _ hlt'
  have htouch : d.stop = e.address := by
    obtain hde | hed := h.toTiling.layout.disjoint hd he hne
    · omega
    · omega
  have hsep := h.separated d hd e he hfreeD (hfree e he _ hle' hlt' hend) htouch
  omega

/-- Whether an allocation has bytes in the page of an address. -/
def Uses (a : Allocation) (x : ℕ) : Prop :=
  a.address / 4096 ≤ x / 4096 ∧ x / 4096 ≤ (a.address + a.size - 1) / 4096

lemma Live.exists_uses (h : Live m₀ s) {x : ℕ} (hx : Taken s.chunks x) :
    ∃ a ∈ s.live, Uses a x := by
  obtain ⟨d, hd, hallocated, hle, hlt⟩ := h.heap.exists_pointer hx
  have hpos := h.heap.toTiling.nonempty hd
  have hshaped := h.heap.shaped d hd
  obtain ⟨a, ha, rfl⟩ := List.mem_map.mp
    (h.pointers.mem_iff.mpr (List.mem_filter.mpr ⟨hd, hallocated⟩))
  refine ⟨a, ha, hle, ?_⟩
  by_cases hlarge : 4096 < a.size
  · have hround : pageAlignedSize a.size = (a.size + 4095) / 4096 * 4096 := rfl
    unfold Shaped Chunk.stop at hshaped
    unfold Chunk.stop at hlt
    rw [Allocation.chunk_large hlarge] at hshaped hlt
    dsimp only at hshaped hlt
    omega
  · rwa [Allocation.chunk_small (not_lt.mp hlarge)] at hlt

lemma Live.managed_of_uses (h : Live m₀ s) {a : Allocation} (ha : a ∈ s.live) {x : BitVec 32}
    (huses : Uses a x.toNat) : Managed m₀ s x := by
  obtain ⟨hle, hlt⟩ := huses
  have hpos := h.positive a ha
  have hsize := Allocation.size_le a
  rw [h.taken]
  apply h.heap.whole (max a.address (x.toNat / 4096 * 4096)) _ (by omega)
  refine ⟨a.chunk, h.mem_chunks ha, le_max_left _ _, ?_⟩
  change _ < a.address + a.chunk.size
  omega

lemma Live.sound (h : Live m₀ s) : Sound m₀ s := by
  have hlayout := h.heap.toTiling.layout
  have hchunk : ∀ a ∈ s.live, a.address + a.size ≤ a.chunk.stop := by
    intro a _
    have hle := Allocation.size_le a
    unfold Chunk.stop
    exact Nat.add_le_add_left hle _
  refine ⟨?_, ?_, ?_, h.aligned, ?_, h.heap.indexed.holes, h.heap.separated, ?_⟩
  · have hpointers : (s.chunks.filter (·.is_allocated)).Pairwise
        fun c d => c.stop ≤ d.address ∨ d.stop ≤ c.address :=
      (hlayout.sorted.sublist List.filter_sublist).imp fun hle => .inl hle
    have hmap := h.pointers.symm.pairwise hpointers fun hor => hor.symm
    rw [List.pairwise_map] at hmap
    apply hmap.imp
    intro a b hor
    have ha := Allocation.size_le a
    have hb := Allocation.size_le b
    unfold Chunk.stop at hor
    change a.address + a.chunk.size ≤ b.address ∨ b.address + b.chunk.size ≤ a.address at hor
    omega
  · intro a ha
    have hbound := h.heap.bound a.chunk (h.mem_chunks ha)
    have hle := hchunk a ha
    omega
  · intro a ha x hlo hhi
    rw [h.taken]
    exact ⟨a.chunk, h.mem_chunks ha, hlo, hhi.trans_le (hchunk a ha)⟩
  · intro x
    rw [h.taken]
    constructor
    · rintro ⟨c, hc, hx⟩
      refine ⟨c, ⟨hc, hx⟩, ?_⟩
      rintro d ⟨hd, hdx⟩
      exact hlayout.unique hd hc hdx hx
    · rintro ⟨c, ⟨hc, hx⟩, -⟩
      exact ⟨c, hc, hx⟩
  · intro hempty
    have hpointers := h.pointers
    rw [hempty, List.map_nil] at hpointers
    have hnone : s.chunks.filter (·.is_allocated) = [] := hpointers.nil_eq.symm
    rw [List.filter_eq_nil_iff] at hnone
    have hchunks : s.chunks = [] := by
      rw [List.eq_nil_iff_forall_not_mem]
      intro c hc
      have htaken : Taken s.chunks c.address := ⟨c, hc, le_rfl, hlayout.nonempty c hc⟩
      obtain ⟨d, hd, hallocated, -⟩ := h.heap.exists_pointer htaken
      exact hnone d hd hallocated
    have hholes := h.heap.indexed.holes
    rw [hchunks] at hholes
    refine ⟨hchunks, hholes.eq_nil, ?_⟩
    intro x
    apply h.heap.others x
    rw [hchunks]
    rintro ⟨c, hc, -⟩
    cases hc

end Sound

section Runs

variable {ops : List Op}

/-- Along any run in which the address of a merged hole is still where it was read, the heap is
sound, and every live pointer can be freed. -/
theorem run_sound (m₀ : Memory) (hfuel : 2 ^ 20 ≤ fuel)
    (halong : Along (step fuel) (fun op s => Valid s op ∧ ReadsAddress s op) ops { memory := m₀ })
    (hrun : run (step fuel) ops { memory := m₀ } = some s) :
    Sound m₀ s ∧ ∀ a ∈ s.live, ∀ stale, ReadsAddress s (.free a.address stale) →
      (s.Free fuel a.address stale).isSome := by
  have hlive : Live m₀ s := run_invariant (P := fun op s => Valid s op ∧ ReadsAddress s op)
    (fun _ _ _ hinv hop hstep => Live.step hinv hop.1 hop.2 hfuel hstep) (live_init m₀) halong hrun
  refine ⟨hlive.sound, ?_⟩
  intro a ha stale hread
  obtain ⟨s', hs', -⟩ := hlive.free ha hread hfuel
  rw [hs']
  rfl

def threePointers : List Op :=
  [.allocate 16 1, .allocate 16 1, .allocate 5000 4096, .free 0xb7fb0000 0,
    .free 0xb7fb0010 0xb7fb0000, .free 0xb7fae000 0]

theorem run_sound_threePointers : ∃ s ∈ run (step (2 ^ 20)) threePointers { memory := {} },
    s.live = [] ∧ s.chunks = [] ∧ Sound {} s := by
  have hrun : ∃ s ∈ run (step (2 ^ 20)) threePointers { memory := {} },
      s.live = [] ∧ s.chunks = [] := by
    decide +kernel
  have halong : Along (step (2 ^ 20)) (fun op s => Valid s op ∧ ReadsAddress s op) threePointers
      { memory := {} } := by
    decide +kernel
  obtain ⟨s, hs, hlive, hchunks⟩ := hrun
  exact ⟨s, hs, hlive, hchunks, (run_sound {} le_rfl halong hs).1⟩

lemma live_run (hfuel : 2 ^ 20 ≤ fuel)
    (halong : Along (step fuel) (fun op s => Valid s op ∧ ReadsAddress s op) ops { memory := m₀ })
    (hrun : run (step fuel) ops { memory := m₀ } = some s) : Live m₀ s :=
  run_invariant (P := fun op s => Valid s op ∧ ReadsAddress s op)
    (fun _ _ _ hinv hop hstep => Live.step hinv hop.1 hop.2 hfuel hstep) (live_init m₀) halong hrun

/-- **Pages in use.** After every such run the manager holds exactly the pages in which a live
allocation has bytes. -/
theorem run_pages_used (m₀ : Memory) (hfuel : 2 ^ 20 ≤ fuel)
    (halong : Along (step fuel) (fun op s => Valid s op ∧ ReadsAddress s op) ops { memory := m₀ })
    (hrun : run (step fuel) ops { memory := m₀ } = some s) (x : BitVec 32) :
    Managed m₀ s x ↔ ∃ a ∈ s.live, Uses a x.toNat := by
  have hlive := live_run hfuel halong hrun
  constructor
  · intro hx
    exact hlive.exists_uses ((hlive.taken x).mp hx)
  · rintro ⟨a, ha, huses⟩
    exact hlive.managed_of_uses ha huses

/-- One of two allocations in a page is freed. -/
theorem run_pages_used_secondPointer :
    ∃ s ∈ run (step (2 ^ 20)) (threePointers.take 4) { memory := {} },
      Managed {} s 0xb7fb0000#32 ↔ ∃ a ∈ s.live, Uses a 0xb7fb0000 := by
  have hrun : (run (step (2 ^ 20)) (threePointers.take 4) { memory := {} }).isSome := by
    decide +kernel
  have halong : Along (step (2 ^ 20)) (fun op s => Valid s op ∧ ReadsAddress s op)
      (threePointers.take 4) { memory := {} } := by
    decide +kernel
  obtain ⟨s, hs⟩ := Option.isSome_iff_exists.mp hrun
  exact ⟨s, hs, run_pages_used {} le_rfl halong hs 0xb7fb0000#32⟩

/-- When the memory of the freed hole holds another address, its page stays mapped. -/
theorem not_sound_staleAddress :
    Along (step (2 ^ 20)) (fun op s => Valid s op)
        [.allocate 16 1, .allocate 16 1, .free 0xb7fb0000 0, .free 0xb7fb0010 0]
        { memory := {} } ∧
      ∃ s ∈ run (step (2 ^ 20))
          [.allocate 16 1, .allocate 16 1, .free 0xb7fb0000 0, .free 0xb7fb0010 0]
          { memory := {} },
        s.live = [] ∧ ¬ Sound {} s := by
  have hrun : ∃ s ∈ run (step (2 ^ 20))
      [.allocate 16 1, .allocate 16 1, .free 0xb7fb0000 0, .free 0xb7fb0010 0] { memory := {} },
      s.live = [] ∧ (s.memory.getPage 0xb7fb0000#32).isSome := by
    decide +kernel
  constructor
  · decide +kernel
  · obtain ⟨s, hs, hlive, hmapped⟩ := hrun
    refine ⟨s, hs, hlive, ?_⟩
    intro hsound
    rw [(hsound.empty hlive).2.2] at hmapped
    cases hmapped

end Runs

end OISA.Memory.Manager
