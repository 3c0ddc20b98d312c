import OISA.Proofs.MemoryRanges

/-!
# The pages that a call changes
-/

/-!
## Pages made and taken away

Which pages `Map` and `Unmap` change.
-/

namespace OISA.Memory

open OISA.Lib

variable {m m' : Memory} {a x address size perm : BitVec 32} {fuel n : ℕ}

section Tags

lemma aligned_of_toNat (h : a.toNat % 4096 = 0) : pageOffset LogPageSize a = 0#32 := by
  apply BitVec.eq_of_toNat_eq
  rw [toNat_pageOffset logPageSize_lt]
  exact h

lemma getPage_of_page (h : a.toNat / 4096 = x.toNat / 4096) : m.getPage a = m.getPage x :=
  getPage_of_tag ((pageTag_eq_iff logPageSize_lt).mpr h)

end Tags

section Change

def InPages (first n : ℕ) (x : BitVec 32) : Prop :=
  first / 4096 ≤ x.toNat / 4096 ∧ x.toNat / 4096 ≤ (first + n - 1) / 4096

lemma forTags_pages (m : Memory) (address size : BitVec 32)
    (body : BitVec 32 → Memory → Option Memory)
    (g : BitVec 32 → Option Page → Option Page)
    (hbody : ∀ t m, body t m = some (m.setPage t (g (pageTag LogPageSize t) (m.getPage t))))
    (hpos : 0 < size.toNat) (hlast : address.toNat + size.toNat ≤ 0xFFFFF000)
    (hfuel : 2 ^ 20 ≤ fuel) :
    ∃ m', forTags body (pageTag LogPageSize (address + size - 1#32)) fuel
        (pageTag LogPageSize address) m = some m' ∧
      ∀ x, (InPages address.toNat size.toNat x →
          m'.getPage x = g (pageTag LogPageSize x) (m.getPage x)) ∧
        (¬ InPages address.toNat size.toNat x → m'.getPage x = m.getPage x) := by
  have hne : size ≠ 0#32 := by
    rintro rfl
    exact absurd hpos (Nat.lt_irrefl 0)
  have hrange : InRange address size := by
    unfold InRange
    rw [if_neg hne]
    exact hlast
  have hend := last_tag_lt hrange
  have haligned : pageOffset LogPageSize (pageTag LogPageSize address) = 0#32 := pageOffset_pageTag
  obtain ⟨m', hm', -, hpages⟩ := forTags_spec (m := m) hbody hend haligned
    (by omega : 0 < fuel) (by omega)
  refine ⟨m', hm', ?_⟩
  intro x
  have htag := toNat_tag (a := x)
  have hfirst := toNat_tag (a := address)
  have hsecond := toNat_tag (a := address + size - 1#32)
  rw [toNat_last hne hlast] at hsecond
  rw [hpages, hfirst, hsecond, htag]
  unfold InPages
  constructor
  · intro hin
    rw [if_pos (by omega)]
  · intro hout
    rw [if_neg (by omega)]

lemma map_spec (m : Memory) (address size perm : BitVec 32) (hpos : 0 < size.toNat)
    (hlast : address.toNat + size.toNat ≤ 0xFFFFF000) (hfuel : 2 ^ 20 ≤ fuel) :
    ∃ m', m.Map fuel address size perm = some m' ∧
      ∀ x, (InPages address.toNat size.toNat x → (m'.getPage x).isSome) ∧
        (¬ InPages address.toNat size.toNat x → m'.getPage x = m.getPage x) := by
  obtain ⟨m', hm', hpages⟩ := forTags_pages m address size (Map.body perm)
    (fun t o => some ((o.getD (Page.new t perm)).addPerm perm)) map_body hpos hlast hfuel
  refine ⟨m', hm', ?_⟩
  intro x
  refine ⟨?_, (hpages x).2⟩
  intro hin
  rw [(hpages x).1 hin]
  rfl

lemma map_last (h : a.toNat = 0xFFFFF000) : m.Map fuel a PageSize perm = none := by
  have htag : pageOffset LogPageSize (pageTag LogPageSize a) = 0#32 := pageOffset_pageTag
  have hsize : PageSize.toNat = 4096 := rfl
  apply forTags_forever htag
  rw [and_not_mask, toNat_tag, BitVec.toNat_sub, BitVec.toNat_add, hsize, h]
  rfl

lemma unmap_spec (m : Memory) (haligned : n % 4096 = 0) (hlast : n + 4096 ≤ 0xFFFFF000)
    (hfuel : 2 ^ 20 ≤ fuel) :
    ∃ m', m.Unmap fuel (.ofNat 32 n) PageSize = some m' ∧
      ∀ x : BitVec 32, (x.toNat / 4096 = n / 4096 → m'.getPage x = none) ∧
        (x.toNat / 4096 ≠ n / 4096 → m'.getPage x = m.getPage x) := by
  have hn : (BitVec.ofNat 32 n).toNat = n := by
    rw [BitVec.toNat_ofNat]
    omega
  have hsize : PageSize.toNat = 4096 := rfl
  obtain ⟨m', hm', hpages⟩ := forTags_pages m (.ofNat 32 n) PageSize
    Unmap.body (fun _ _ => none) (fun _ _ => rfl) (by rw [hsize]; omega)
    (by rw [hn, hsize]; exact hlast) hfuel
  have hassert : ¬ (BitVec.ofNat 32 n &&& (PageSize - 1#32) ≠ 0 ∨
      PageSize &&& (PageSize - 1#32) ≠ 0) := by
    rw [not_or, not_not, not_not]
    refine ⟨?_, rfl⟩
    apply aligned_of_toNat
    rw [hn]
    exact haligned
  refine ⟨m', ?_, ?_⟩
  · unfold Unmap
    rw [if_neg hassert]
    exact hm'
  · intro x
    have hpage := hpages x
    unfold InPages at hpage
    rw [hn, hsize] at hpage
    constructor
    · intro hx
      exact hpage.1 (by omega)
    · intro hx
      exact hpage.2 (by omega)

end Change

end OISA.Memory

/-!
## Calls on ranges of pages

Which pages a call of `Map`, `Unmap` or `Protect` changes, for ranges anywhere in the address
space.
-/

namespace OISA.Memory

open OISA.Lib FlatMemory

variable {m m' : Memory} {a tag tag2 address size perm : BitVec 32} {fuel n : ℕ}

inductive RangeCall
  | Map (perm : BitVec 32)
  | Unmap
  | Protect (perm : BitVec 32)
  deriving DecidableEq, Repr

namespace RangeCall

variable {call : RangeCall}

def run (fuel : ℕ) (m : Memory) (address size : BitVec 32) : RangeCall → Option Memory
  | Map perm => m.Map fuel address size perm
  | Unmap => m.Unmap fuel address size
  | Protect perm => m.Protect fuel address size perm

def change (a : BitVec 32) : RangeCall → Option Page → Option Page
  | Map perm, page => some ((page.getD (Page.new a perm)).addPerm perm)
  | Unmap, _ => none
  | Protect perm, page => page.map (Page.setPerm · perm)

def body : RangeCall → BitVec 32 → Memory → Option Memory
  | Map perm => Map.body perm
  | Unmap => Unmap.body
  | Protect perm => Protect.body perm

def Asserts (address size : BitVec 32) : RangeCall → Prop
  | Map _ => True
  | Unmap | Protect _ => pageOffset LogPageSize address = 0#32 ∧ pageOffset LogPageSize size = 0#32

/-- The call ends and changes the pages that hold a byte of the range, and no others. -/
def Exact (m : Memory) (address size : BitVec 32) (call : RangeCall) : Prop :=
  ∃ n m', (∀ fuel, n ≤ fuel → call.run fuel m address size = some m') ∧ m'.safe = m.safe ∧
    ∀ a, (Touched address size a → m'.getPage a = call.change a (m.getPage a)) ∧
      (¬ Touched address size a → m'.getPage a = m.getPage a)

/-- The range ends before the last page. -/
def Handled (m : Memory) (address size : BitVec 32) (call : RangeCall) : Prop :=
  call.Asserts address size ∧
    if size = 0#32 then
      if pageOffset LogPageSize address = 0#32 then address ≠ 0#32
      else address.toNat < 0xFFFFF000 ∧
        call.change address (m.getPage address) = m.getPage address
    else address.toNat + size.toNat ≤ 0xFFFFF000

lemma change_tag : call.change (pageTag LogPageSize a) = call.change a := by
  funext page
  cases call with
  | Map perm => exact congrArg (fun new => some ((page.getD new).addPerm perm)) Page.new_tag
  | Unmap => rfl
  | Protect perm => rfl

lemma body_eq (t : BitVec 32) (m : Memory) : call.body t m =
    some (m.setPage t (call.change (pageTag LogPageSize t) (m.getPage t))) := by
  cases call with
  | Map perm => exact map_body t m
  | Unmap => rfl
  | Protect perm => exact protect_body t m

lemma run_eq (h : call.Asserts address size) : call.run fuel m address size =
    forTags call.body (pageTag LogPageSize (address + size - 1#32)) fuel
      (pageTag LogPageSize address) m := by
  have hnot : ∀ {p q : Prop}, p ∧ q → ¬ (¬ p ∨ ¬ q) := by tauto
  cases call with
  | Map perm => rfl
  | Unmap => exact if_neg (hnot h)
  | Protect perm => exact if_neg (hnot h)

lemma run_of_not (h : ¬ call.Asserts address size) : call.run fuel m address size = none := by
  have hor : ∀ {p q : Prop}, ¬ (p ∧ q) → ¬ p ∨ ¬ q := by tauto
  cases call with
  | Map perm => exact absurd trivial h
  | Unmap => exact if_pos (hor h)
  | Protect perm => exact if_pos (hor h)

end RangeCall

section Loop

lemma forTags_mono {body : BitVec 32 → Memory → Option Memory} (hle : n ≤ fuel)
    (h : forTags body tag2 n tag m = some m') : forTags body tag2 fuel tag m = some m' := by
  induction n generalizing fuel tag m with
  | zero => cases h
  | succ n ih =>
    obtain ⟨fuel, rfl⟩ := Nat.exists_eq_add_of_lt hle
    rw [forTags] at h ⊢
    split_ifs at h ⊢ with hin
    · obtain ⟨m₁, hbody, hrest⟩ := Option.bind_eq_some_iff.mp h
      rw [hbody, Option.bind_some]
      exact ih (by omega) hrest
    · exact h

lemma toNat_lastTag (hsize : size ≠ 0#32) (hrange : address.toNat + size.toNat ≤ 2 ^ 32) :
    (pageTag LogPageSize (address + size - 1#32)).toNat =
      (address.toNat + size.toNat - 1) / 4096 * 4096 := by
  have hpos : size.toNat ≠ 0 := fun hzero => hsize (BitVec.eq_of_toNat_eq hzero)
  rw [toNat_tag, BitVec.toNat_sub, BitVec.toNat_add, BitVec.toNat_ofNat]
  omega

lemma not_touched_empty : ¬ Touched address 0#32 a := by
  rintro ⟨i, hi, -⟩
  exact absurd hi (Nat.not_lt_zero i)

end Loop

section Calls

variable {call : RangeCall}

lemma RangeCall.run_pages (h : call.Asserts address size)
    (hlast : (pageTag LogPageSize (address + size - 1#32)).toNat ≤ 0xFFFFE000) :
    ∃ m', (∀ fuel, 2 ^ 20 ≤ fuel → call.run fuel m address size = some m') ∧ m'.safe = m.safe ∧
      ∀ a, m'.getPage a =
        if (pageTag LogPageSize address).toNat ≤ (pageTag LogPageSize a).toNat ∧
          (pageTag LogPageSize a).toNat ≤ (pageTag LogPageSize (address + size - 1#32)).toNat
        then call.change a (m.getPage a) else m.getPage a := by
  have haligned : pageOffset LogPageSize (pageTag LogPageSize address) = 0#32 := pageOffset_pageTag
  obtain ⟨m', hm', hsafe, hpages⟩ := forTags_spec (m := m)
    (g := call.change) (fun t m => call.body_eq t m) hlast haligned (by omega : 0 < 2 ^ 20)
    (by omega)
  refine ⟨m', ?_, hsafe, ?_⟩
  · intro fuel hfuel
    rw [RangeCall.run_eq h]
    exact forTags_mono hfuel hm'
  · intro a
    rw [hpages, RangeCall.change_tag]

lemma RangeCall.run_forever
    (hlast : (pageTag LogPageSize (address + size - 1#32)).toNat = 0xFFFFF000) :
    call.run fuel m address size = none := by
  by_cases h : call.Asserts address size
  · rw [RangeCall.run_eq h]
    exact forTags_forever pageOffset_pageTag hlast
  · exact RangeCall.run_of_not h

lemma RangeCall.exact_range (h : call.Asserts address size)
    (hrange : InRange address size) : call.Exact m address size := by
  obtain ⟨m', hm', hsafe, hpages⟩ := RangeCall.run_pages (m := m) h (last_tag_lt hrange)
  refine ⟨2 ^ 20, m', hm', hsafe, ?_⟩
  intro a
  refine ⟨?_, ?_⟩
  · intro ha
    rw [hpages, if_pos ((touched_iff hrange).mp ha)]
  · intro ha
    rw [hpages, if_neg (fun hin => ha ((touched_iff hrange).mpr hin))]

/-- A range of no bytes inside a page: the loop changes that page. -/
lemma RangeCall.exact_inside (h : call.Asserts address 0#32)
    (hoffset : pageOffset LogPageSize address ≠ 0#32) : call.Exact m address 0#32 ↔
      address.toNat < 0xFFFFF000 ∧
        call.change address (m.getPage address) = m.getPage address := by
  have hmod : address.toNat % 4096 ≠ 0 := by
    intro hzero
    apply hoffset
    apply BitVec.eq_of_toNat_eq
    rw [toNat_pageOffset logPageSize_lt]
    exact hzero
  have hne : address ≠ 0#32 := by
    rintro rfl
    exact hmod rfl
  have hfirst := toNat_tag (a := address)
  have hlast := toNat_tag (a := address + 0#32 - 1#32)
  have hlt := address.isLt
  rw [toNat_last_of_empty hne] at hlast
  by_cases hend : address.toNat < 0xFFFFF000
  · obtain ⟨m', hm', hsafe, hpages⟩ := RangeCall.run_pages (m := m) h (by omega)
    constructor
    · rintro ⟨n, m₁, hm₁, -, hexact⟩
      refine ⟨hend, ?_⟩
      have hsame : m' = m₁ := by
        have hboth := hm' (max n (2 ^ 20)) (le_max_right _ _)
        rw [hm₁ _ (le_max_left _ _)] at hboth
        exact (Option.some.inj hboth).symm
      have hpage := (hexact address).2 not_touched_empty
      rw [← hsame, hpages, if_pos (by omega)] at hpage
      exact hpage
    · rintro ⟨-, hkeeps⟩
      refine ⟨2 ^ 20, m', hm', hsafe, ?_⟩
      intro a
      refine ⟨fun ha => absurd ha not_touched_empty, fun _ => ?_⟩
      rw [hpages]
      split_ifs with ha
      · have htag : pageTag LogPageSize a = pageTag LogPageSize address := by
          apply BitVec.eq_of_toNat_eq
          omega
        rw [getPage_of_tag htag, ← change_tag, htag, change_tag, hkeeps]
      · rfl
  · constructor
    · rintro ⟨n, m', hm', -⟩
      have hnone := hm' n le_rfl
      rw [RangeCall.run_forever (by omega)] at hnone
      cases hnone
    · rintro ⟨hcontra, -⟩
      exact absurd hcontra hend

end Calls

/-- A call on a range inside of the address space ends and changes exactly the pages of the range
if and only if it is `Handled`. -/
theorem ranges_exact_iff (m : Memory) (call : RangeCall) (address size : BitVec 32)
    (hrange : address.toNat + size.toNat ≤ 2 ^ 32) :
    call.Exact m address size ↔ call.Handled m address size := by
  unfold RangeCall.Handled
  by_cases hasserts : call.Asserts address size
  · rw [and_iff_right hasserts]
    by_cases hsize : size = 0#32
    · rw [if_pos hsize]
      subst hsize
      by_cases hoffset : pageOffset LogPageSize address = 0#32
      · rw [if_pos hoffset]
        constructor
        · rintro ⟨n, m', hm', -⟩ rfl
          have hnone := hm' n le_rfl
          rw [RangeCall.run_forever rfl] at hnone
          cases hnone
        · intro hne
          apply RangeCall.exact_range hasserts
          exact ⟨hoffset, hne⟩
      · rw [if_neg hoffset]
        exact RangeCall.exact_inside hasserts hoffset
    · rw [if_neg hsize]
      constructor
      · rintro ⟨n, m', hm', -⟩
        by_contra hlarge
        have hnone := hm' n le_rfl
        rw [RangeCall.run_forever] at hnone
        · cases hnone
        · rw [toNat_lastTag hsize hrange]
          omega
      · intro hle
        apply RangeCall.exact_range hasserts
        unfold InRange
        rw [if_neg hsize]
        exact hle
  · constructor
    · rintro ⟨n, m', hm', -⟩
      have hnone := hm' n le_rfl
      rw [RangeCall.run_of_not hasserts] at hnone
      cases hnone
    · rintro ⟨hcontra, -⟩
      exact absurd hcontra hasserts

/-- Two bytes across a page boundary -/
theorem ranges_exact_twoBytes :
    RangeCall.Exact {} 0x1FFF#32 2#32 (.Map 3#32) ∧ 0x1FFF + 2 ≤ 2 ^ 32 := by
  refine ⟨(ranges_exact_iff {} (.Map 3#32) 0x1FFF#32 2#32 (by decide)).mpr ⟨trivial, ?_⟩, by decide⟩
  rw [if_neg (by decide)]
  decide

/-- Mapping the last page of the address space never ends. -/
theorem ranges_not_exact_lastPage :
    (0xFFFFF000#32).toNat + (0x1000#32).toNat ≤ 2 ^ 32 ∧
      ¬ RangeCall.Exact {} 0xFFFFF000#32 0x1000#32 (.Map 3#32) := by
  refine ⟨by decide, ?_⟩
  rintro ⟨n, m', hm', -⟩
  have hnone := hm' n le_rfl
  rw [RangeCall.run_forever (by decide)] at hnone
  cases hnone

end OISA.Memory
