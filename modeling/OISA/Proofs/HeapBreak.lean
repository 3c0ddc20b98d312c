import OISA.Lib.Runs
import OISA.Proofs.Remapping

/-!
# The heap break

Calls of `brk` keep the pages of the heap mapped as long as they stay away from the ends of the
address space, from the pages below the initial break and from the pages in the way.
-/

namespace OISA.X86.AddressSpace

open OISA.Lib OISA.Memory

def InHeap (start heap_break x : Word) : Prop :=
  pageCeil start.toNat ≤ x.toNat ∧ x.toNat < pageCeil heap_break.toNat

def HeapMapped (start : Word) (heap : Heap) : Prop :=
  ∀ x, InHeap start heap.heap_break x → (heap.memory.getPage x).isSome = true

def Blocked (heap : Heap) (new_heap_break : Word) : Prop :=
  ∃ x, InHeap heap.heap_break new_heap_break x ∧ (heap.memory.getPage x).isSome = true

/-- What a call of `brk` is for: it returns the break, and changes nothing if a page is in the way.
-/
def BrkDone (start : Word) (heap : Heap) (new_heap_break : Word) : Option BrkResult → Prop
  | some (.returns value heap') => value = heap'.heap_break ∧
    (Blocked heap new_heap_break → heap' = heap) ∧
    (¬ Blocked heap new_heap_break → HeapMapped start heap' ∧
      heap'.heap_break = (if new_heap_break = 0 then heap.heap_break else new_heap_break) ∧
      ∀ x, ¬ InHeap start heap.heap_break x → ¬ InHeap start new_heap_break x →
        heap'.memory.getPage x = heap.memory.getPage x)
  | _ => False

/-- The condition: the call asks for the break, moves it inside of its page, adds free pages above
the initial break, or takes away pages of which none below the initial break is mapped. -/
def BrkFits (start : Word) (heap : Heap) (new_heap_break : Word) : Prop :=
  let old := pageCeil heap.heap_break.toNat
  let new := pageCeil new_heap_break.toNat
  new_heap_break = 0 ∨ (new = old ∧ new_heap_break ≠ heap.heap_break) ∨
  (old < new ∧ new < 2 ^ 32 ∧ heap.heap_break ≠ 0 ∧ pageCeil start.toNat ≤ old ∧
    ¬ Blocked heap new_heap_break) ∨
  (new < old ∧ old < 2 ^ 32 ∧ ∀ x : Word, new ≤ x.toNat → x.toNat < old →
    (heap.memory.getPage x).isSome = true → pageCeil start.toNat ≤ x.toNat)

def brk (fuel : ℕ) (new_heap_break : Word) (heap : Heap) : Option Heap :=
  match executeSyscall_brk fuel heap new_heap_break with
  | some (.returns _ heap') => some heap'
  | _ => none

section Steps

variable {m : Memory} {start new a size : Word} {heap : Heap} {fuel : ℕ}

lemma roundUp_mod (len : Word) : (RoundUp len PageSize).toNat = pageCeil len.toNat % 2 ^ 32 := by
  have hlt := len.isLt
  rw [toNat_roundUp]
  unfold pageCeil
  split <;> omega

lemma toNat_roundUp_sub {old new : Word} (h : old.toNat ≤ new.toNat) :
    (RoundUp new PageSize - RoundUp old PageSize).toNat =
      (pageCeil new.toNat - pageCeil old.toNat) % 2 ^ 32 := by
  have hlt := new.isLt
  rw [BitVec.toNat_sub, roundUp_mod, roundUp_mod]
  unfold pageCeil
  omega

lemma mapSpace_self_iff (ha : a.toNat % 4096 = 0) (hs : size.toNat % 4096 = 0)
    (hpos : 0 < size.toNat) (hspace : a.toNat + size.toNat ≤ 2 ^ 32) (hfuel : 2 ^ 20 ≤ fuel) :
    m.MapSpace fuel a size = some a ↔
      a ≠ 0 ∧ ∀ x, InBytes a.toNat size.toNat x → m.getPage x = none := by
  constructor
  · intro h
    have hne : a ≠ -1 := by
      rintro rfl
      revert ha
      decide
    obtain ⟨r, hr, hfound⟩ := mapSpace_first (m := m) (aligned_of_toNat ha) (aligned_of_toNat hs)
      (size_ne_zero hpos)
    rw [mapSpace_mono hfuel hr, Option.some.injEq] at h
    subst h
    rcases hfound with ⟨hminus, -⟩ | ⟨hregion, hzero, -⟩
    · exact absurd hminus hne
    · exact ⟨hzero.1, fun x hx => hregion.2.2 x hx.1 hx.2⟩
  · rintro ⟨hzero, hfree⟩
    exact mapSpace_free ha hs hpos hspace hzero hfuel hfree

lemma brk_inside (hmapped : HeapMapped start heap) (hzero : new ≠ 0)
    (hsame : pageCeil new.toNat = pageCeil heap.heap_break.toNat) :
    BrkDone start heap new (some (.returns new { heap with heap_break := new })) := by
  refine ⟨rfl, ?_, fun _ => ⟨?_, (if_neg hzero).symm, fun _ _ _ => rfl⟩⟩
  · rintro ⟨x, hx, -⟩
    unfold InHeap at hx
    omega
  · intro x hx
    apply hmapped
    unfold InHeap at hx ⊢
    rw [← hsame]
    exact hx

lemma brkFits_grows (hgrows : pageCeil heap.heap_break.toNat < pageCeil new.toNat) :
    BrkFits start heap new ↔ pageCeil new.toNat < 2 ^ 32 ∧ heap.heap_break ≠ 0 ∧
      pageCeil start.toNat ≤ pageCeil heap.heap_break.toNat ∧ ¬ Blocked heap new := by
  unfold BrkFits
  constructor
  · rintro (rfl | ⟨h, -⟩ | h | ⟨h, -⟩)
    · exact absurd hgrows (Nat.not_lt_zero _)
    · omega
    · exact h.2
    · omega
  · exact fun h => Or.inr (Or.inr (Or.inl ⟨hgrows, h⟩))

lemma brkFits_shrinks (hnew : new ≠ 0)
    (hshrinks : pageCeil new.toNat < pageCeil heap.heap_break.toNat) :
    BrkFits start heap new ↔ pageCeil heap.heap_break.toNat < 2 ^ 32 ∧
      ∀ x : Word, pageCeil new.toNat ≤ x.toNat → x.toNat < pageCeil heap.heap_break.toNat →
        (heap.memory.getPage x).isSome = true → pageCeil start.toNat ≤ x.toNat := by
  unfold BrkFits
  constructor
  · rintro (h | ⟨h, -⟩ | ⟨h, -⟩ | h)
    · exact absurd h hnew
    · omega
    · omega
    · exact h.2
  · exact fun h => Or.inr (Or.inr (Or.inr ⟨hshrinks, h⟩))

lemma brkDone_mapped {m' : Memory} (hmapped : HeapMapped start heap) (hnew : new ≠ 0)
    (ha : a.toNat = pageCeil heap.heap_break.toNat) (hgrows : a.toNat < pageCeil new.toNat)
    (hunblocked : ¬ Blocked heap new)
    (hin : ∀ x, InHeap heap.heap_break new x → (m'.getPage x).isSome = true)
    (hout : ∀ x, ¬ InHeap heap.heap_break new x → m'.getPage x = heap.memory.getPage x) :
    BrkDone start heap new (some (.returns new ⟨m', new⟩)) ↔
      pageCeil start.toNat ≤ pageCeil heap.heap_break.toNat := by
  constructor
  · rintro ⟨-, -, hdone⟩
    by_contra hbelow
    -- the first page that is added is neither in the old heap nor in the new one
    have hfirst : InHeap heap.heap_break new a := ⟨ha.ge, hgrows⟩
    have hsame := (hdone hunblocked).2.2 a
      (fun h => by unfold InHeap at h; omega) (fun h => by unfold InHeap at h; omega)
    apply hunblocked
    exact ⟨a, hfirst, hsame ▸ hin a hfirst⟩
  · intro habove
    refine ⟨rfl, fun hb => absurd hb hunblocked, fun _ => ⟨fun x hx => ?_,
      (if_neg hnew).symm, fun x hx hx' => ?_⟩⟩
    · by_cases hadded : InHeap heap.heap_break new x
      · exact hin x hadded
      · change (m'.getPage x).isSome = true
        rw [hout x hadded]
        apply hmapped
        change InHeap start new x at hx
        unfold InHeap at hx hadded ⊢
        omega
    · apply hout
      unfold InHeap at hx hx' ⊢
      omega

lemma brkDone_unmapped {m' : Memory} (hmapped : HeapMapped start heap) (hnew : new ≠ 0)
    (hshrinks : pageCeil new.toNat < pageCeil heap.heap_break.toNat)
    (hin : ∀ x, InHeap new heap.heap_break x → m'.getPage x = none)
    (hout : ∀ x, ¬ InHeap new heap.heap_break x → m'.getPage x = heap.memory.getPage x) :
    BrkDone start heap new (some (.returns new ⟨m', new⟩)) ↔
      ∀ x : Word, pageCeil new.toNat ≤ x.toNat → x.toNat < pageCeil heap.heap_break.toNat →
        (heap.memory.getPage x).isSome = true → pageCeil start.toNat ≤ x.toNat := by
  have hunblocked : ¬ Blocked heap new := by
    rintro ⟨x, hx, -⟩
    unfold InHeap at hx
    omega
  constructor
  · rintro ⟨-, -, hdone⟩ x hx hx' hsome
    by_contra hbelow
    have hsame := (hdone hunblocked).2.2 x
      (fun h => by unfold InHeap at h; omega) (fun h => by unfold InHeap at h; omega)
    have hgone : m'.getPage x = none := hin x ⟨hx, hx'⟩
    rw [← hsame, hgone] at hsome
    cases hsome
  · intro habove
    refine ⟨rfl, fun hb => absurd hb hunblocked, fun _ => ⟨fun x hx => ?_,
      (if_neg hnew).symm, fun x hx hx' => ?_⟩⟩
    · change (m'.getPage x).isSome = true
      change InHeap start new x at hx
      unfold InHeap at hx hout
      rw [hout x (by omega)]
      apply hmapped
      unfold InHeap
      omega
    · by_cases hremoved : InHeap new heap.heap_break x
      · have hnone : heap.memory.getPage x = none := by
          by_contra hsome
          have hle := habove x hremoved.1 hremoved.2 (Option.isSome_iff_ne_none.mpr hsome)
          exact hx ⟨hle, hremoved.2⟩
        rw [hnone]
        exact hin x hremoved
      · exact hout x hremoved

lemma not_brkDone_whole (hstart : heap.heap_break = 0 → start = 0) (hnew : new ≠ 0)
    (hold : pageCeil heap.heap_break.toNat = 0) (hwhole : pageCeil new.toNat = 2 ^ 32) :
    ¬ BrkDone start heap new (some (.returns new { heap with heap_break := new })) := by
  have hbreak : heap.heap_break = 0 := by
    apply BitVec.eq_of_toNat_eq
    change _ = 0
    unfold pageCeil at hold
    omega
  have hin : InHeap start new 0 := by
    rw [hstart hbreak]
    constructor
    · exact Nat.le_refl _
    · rw [hwhole]
      decide
  rintro ⟨-, hblocked, hfree⟩
  by_cases hb : Blocked heap new
  · apply hnew
    rw [← hbreak]
    exact congrArg Heap.heap_break (hblocked hb)
  · apply hb
    refine ⟨0, ?_, (hfree hb).1 0 hin⟩
    rw [hbreak]
    rwa [hstart hbreak] at hin

lemma brk_grows (hfuel : 2 ^ 20 ≤ fuel) (hmapped : HeapMapped start heap)
    (hstart : heap.heap_break = 0 → start = 0) (hlt : heap.heap_break.toNat < new.toNat) :
    BrkDone start heap new (executeSyscall_brk fuel heap new) ↔ BrkFits start heap new := by
  have hnew : new ≠ 0 := by
    rintro rfl
    exact absurd hlt (Nat.not_lt_zero _)
  have hbound : pageCeil heap.heap_break.toNat ≤ pageCeil new.toNat ∧
      pageCeil new.toNat ≤ 2 ^ 32 ∧ pageCeil new.toNat % 4096 = 0 ∧
      pageCeil heap.heap_break.toNat % 4096 = 0 := by
    have := new.isLt
    unfold pageCeil
    omega
  have hsize := toNat_roundUp_sub hlt.le
  have hold := roundUp_mod heap.heap_break
  simp only [executeSyscall_brk, if_neg hnew, if_pos (BitVec.lt_def.mpr hlt)]
  generalize RoundUp new PageSize - RoundUp heap.heap_break PageSize = size at hsize
  generalize RoundUp heap.heap_break PageSize = a at hold
  rcases hbound.1.eq_or_lt with hsame | hgrows
  · -- the break stays in its page
    have hnone : size = 0 := by
      apply BitVec.eq_of_toNat_eq
      rw [hsize, hsame, Nat.sub_self]
      rfl
    have hne : new ≠ heap.heap_break := fun heq => hlt.ne (congrArg BitVec.toNat heq.symm)
    rw [if_neg (not_not.mpr hnone)]
    exact iff_of_true (brk_inside hmapped hnew hsame.symm) (Or.inr (Or.inl ⟨hsame.symm, hne⟩))
  rw [brkFits_grows hgrows]
  by_cases hwhole : pageCeil new.toNat - pageCeil heap.heap_break.toNat = 2 ^ 32
  · have hnone : size = 0 := by
      apply BitVec.eq_of_toNat_eq
      rw [hsize, hwhole]
      rfl
    rw [if_neg (not_not.mpr hnone)]
    exact iff_of_false (not_brkDone_whole hstart hnew (by omega) (by omega)) fun h => by omega
  rw [Nat.mod_eq_of_lt (by omega)] at hsize hold
  have hadded (x : Word) : InBytes a.toNat size.toNat x ↔ InHeap heap.heap_break new x := by
    unfold InHeap InBytes
    omega
  have hmodA : a.toNat % 4096 = 0 := by omega
  have hmodSize : size.toNat % 4096 = 0 := by omega
  have hself := mapSpace_self_iff (m := heap.memory) hmodA hmodSize (by omega) (by omega) hfuel
  have hfreeIff : (a ≠ 0 ∧ ∀ x, InBytes a.toNat size.toNat x → heap.memory.getPage x = none) ↔
      heap.heap_break ≠ 0 ∧ ¬ Blocked heap new := by
    have hzero : a = 0 ↔ heap.heap_break = 0 := by
      rw [← BitVec.toNat_inj, ← BitVec.toNat_inj, hold]
      unfold pageCeil
      change _ = 0 ↔ _ = 0
      omega
    unfold Blocked
    simp only [hadded, not_exists, not_and, Bool.not_eq_true, Option.isSome_eq_false_iff,
      Option.isNone_iff_eq_none, ne_eq, hzero]
  obtain ⟨r, hr⟩ := mapSpace_total heap.memory hmodA hmodSize (by omega) hfuel
  rw [if_pos (show size ≠ 0 from size_ne_zero (by omega)), hr, Option.bind_some]
  by_cases hfound : r = a
  · subst hfound
    have hfree := hself.mp hr
    obtain ⟨hbreak, hunblocked⟩ := hfreeIff.mp hfree
    rw [if_neg (not_not.mpr rfl)]
    by_cases hend : pageCeil new.toNat < 2 ^ 32
    · obtain ⟨m', hm', hpages⟩ := map_readWrite heap.memory hmodA hmodSize (by omega)
        (by omega) hfuel hfree.2
      rw [hm', Option.map_some, brkDone_mapped hmapped hnew hold (by omega) hunblocked]
      · exact ⟨fun habove => ⟨hend, hbreak, habove, hunblocked⟩, fun h => h.2.2.1⟩
      · intro x hx
        obtain ⟨page, hpage, -⟩ := (hpages x).1 ((hadded x).mpr hx)
        exact hpage ▸ rfl
      · exact fun x hx => (hpages x).2 (mt (hadded x).mp hx)
    · have hforever : r + size = 0 := add_eq_zero (by omega)
      rw [map_forever hforever]
      exact iff_of_false id fun h => hend h.1
  · rw [if_pos hfound]
    refine iff_of_false id fun h => hfound ?_
    have hboth := hself.mpr (hfreeIff.mpr ⟨h.2.1, h.2.2.2⟩)
    exact Option.some.inj (hr.symm.trans hboth)

lemma brk_shrinks (hfuel : 2 ^ 20 ≤ fuel) (hmapped : HeapMapped start heap) (hnew : new ≠ 0)
    (hlt : new.toNat < heap.heap_break.toNat) :
    BrkDone start heap new (executeSyscall_brk fuel heap new) ↔ BrkFits start heap new := by
  have hpos : new.toNat ≠ 0 := fun hzero => hnew (BitVec.eq_of_toNat_eq hzero)
  have hnot : ¬ heap.heap_break < new := fun h => absurd (BitVec.lt_def.mp h) hlt.le.not_gt
  have hbound : pageCeil new.toNat ≤ pageCeil heap.heap_break.toNat ∧ 0 < pageCeil new.toNat ∧
      pageCeil heap.heap_break.toNat ≤ 2 ^ 32 ∧ pageCeil new.toNat % 4096 = 0 ∧
      pageCeil heap.heap_break.toNat % 4096 = 0 := by
    have := heap.heap_break.isLt
    unfold pageCeil
    omega
  have hsize := toNat_roundUp_sub hlt.le
  have hnewUp := roundUp_mod new
  simp only [executeSyscall_brk, if_neg hnew, if_neg hnot, if_pos (BitVec.lt_def.mpr hlt)]
  generalize RoundUp heap.heap_break PageSize - RoundUp new PageSize = size at hsize
  generalize RoundUp new PageSize = a at hnewUp
  rw [Nat.mod_eq_of_lt (by omega)] at hsize
  rcases hbound.1.eq_or_lt with hsame | hshrinks
  · have hnone : size = 0 := by
      apply BitVec.eq_of_toNat_eq
      rw [hsize, hsame, Nat.sub_self]
      rfl
    have hne : new ≠ heap.heap_break := fun heq => hlt.ne (congrArg BitVec.toNat heq)
    rw [if_neg (not_not.mpr hnone)]
    exact iff_of_true (brk_inside hmapped hnew hsame) (Or.inr (Or.inl ⟨hsame, hne⟩))
  rw [brkFits_shrinks hnew hshrinks, if_pos (show size ≠ 0 from size_ne_zero (by omega))]
  rw [Nat.mod_eq_of_lt (by omega)] at hnewUp
  by_cases hend : pageCeil heap.heap_break.toNat < 2 ^ 32
  · have hmodA : a.toNat % 4096 = 0 := by omega
    have hmodSize : size.toNat % 4096 = 0 := by omega
    obtain ⟨m', hm', hpages⟩ := unmap_range heap.memory hmodA hmodSize (by omega) (by omega) hfuel
    have hremoved (x : Word) : InBytes a.toNat size.toNat x ↔ InHeap new heap.heap_break x := by
      unfold InHeap InBytes
      omega
    rw [hm', Option.map_some, brkDone_unmapped hmapped hnew hshrinks]
    · exact (and_iff_right hend).symm
    · exact fun x hx => (hpages x).1 ((hremoved x).mpr hx)
    · exact fun x hx => (hpages x).2 (mt (hremoved x).mp hx)
  · have hforever : a + size = 0 := add_eq_zero (by omega)
    rw [unmap_forever hforever]
    exact iff_of_false id fun h => hend h.1

lemma brkDone_iff (hfuel : 2 ^ 20 ≤ fuel) (hmapped : HeapMapped start heap)
    (hstart : heap.heap_break = 0 → start = 0) (new : Word) :
    BrkDone start heap new (executeSyscall_brk fuel heap new) ↔ BrkFits start heap new := by
  by_cases hnew : new = 0
  · rw [executeSyscall_brk, if_pos hnew]
    refine iff_of_true ⟨rfl, fun _ => rfl, fun _ => ⟨hmapped, (if_pos hnew).symm,
      fun _ _ _ => rfl⟩⟩ (Or.inl hnew)
  rcases Nat.lt_trichotomy heap.heap_break.toNat new.toNat with hlt | heq | hgt
  · exact brk_grows hfuel hmapped hstart hlt
  · have hsame : new = heap.heap_break := (BitVec.eq_of_toNat_eq heq).symm
    have hnot : ¬ new < new := fun h => absurd (BitVec.lt_def.mp h) (Nat.lt_irrefl _)
    simp only [executeSyscall_brk, ← hsame, if_neg hnew, if_neg hnot]
    refine iff_of_false (fun h => hnew (h.1.trans hsame.symm).symm) ?_
    rintro (h | ⟨-, h⟩ | ⟨h, -⟩ | ⟨h, -⟩)
    · exact hnew h
    · exact h hsame
    · rw [hsame] at h
      exact Nat.lt_irrefl _ h
    · rw [hsame] at h
      exact Nat.lt_irrefl _ h
  · exact brk_shrinks hfuel hmapped hnew hgt

end Steps

/-- The calls of `brk` do what they are for in exactly the runs that meet the condition. -/
theorem heapBreak_iff {fuel : ℕ} (hfuel : 2 ^ 20 ≤ fuel) (heap : Heap) (breaks : List Word) :
    Along (brk fuel) (fun new h =>
      BrkDone heap.heap_break h new (executeSyscall_brk fuel h new)) breaks heap ↔
    Along (brk fuel) (fun new h => BrkFits heap.heap_break h new) breaks heap := by
  refine along_iff (Q := fun h : Heap => HeapMapped heap.heap_break h ∧
    (h.heap_break = 0 → heap.heap_break = 0))
    (fun new h hinv => brkDone_iff hfuel hinv.1 hinv.2 new) ?_ ⟨?_, id⟩
  · intro new h h' hinv hfits hstep
    have hdone := (brkDone_iff hfuel hinv.1 hinv.2 new).mpr hfits
    unfold brk at hstep
    split at hstep
    · rename_i value h₁ hresult
      obtain rfl := Option.some.inj hstep
      rw [hresult] at hdone
      by_cases hb : Blocked h new
      · rw [hdone.2.1 hb]
        exact hinv
      · obtain ⟨hmapped, hbreak, -⟩ := hdone.2.2 hb
        refine ⟨hmapped, fun hzero => ?_⟩
        rw [hzero] at hbreak
        split at hbreak
        · exact hinv.2 hbreak.symm
        · rename_i hnew
          exact absurd hbreak.symm hnew
    · cases hstep
  · intro x hx
    unfold InHeap at hx
    omega

/-- The heap grows by a page and shrinks again. -/
theorem heapBreak_page : Along (brk (2 ^ 20)) (fun new h =>
    BrkDone 0x8000 h new (executeSyscall_brk (2 ^ 20) h new)) [0x9000] ⟨{}, 0x8000⟩ := by
  refine (heapBreak_iff (Nat.le_refl _) ⟨{}, 0x8000⟩ [0x9000]).mpr ⟨?_, ?_⟩
  · right; right; left
    refine ⟨by decide, by decide, by decide, Nat.le_refl _, ?_⟩
    rintro ⟨x, -, hx⟩
    cases hx
  · cases brk (2 ^ 20) 0x9000 ⟨{}, 0x8000⟩ <;> trivial

/-- The break that is in force is asked for by its value. -/
theorem heapBreak_same : ¬ Along (brk (2 ^ 20)) (fun new h =>
    BrkDone 0x8000 h new (executeSyscall_brk (2 ^ 20) h new)) [0x8000] ⟨{}, 0x8000⟩ := by
  rintro ⟨⟨hvalue, -⟩, -⟩
  exact absurd hvalue (by decide)

end OISA.X86.AddressSpace
