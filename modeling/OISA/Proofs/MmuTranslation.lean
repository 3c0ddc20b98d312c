import OISA.Memory.Mmu

/-!
# Address translation is injective and invertible

The physical page of the `i`-th page created is page `i`, counted modulo the 32-bit address space.
-/

namespace OISA.Memory.Mmu

open OISA.Lib

variable {Space : Type} {m m' : Mmu Space}

lemma and_PageMask (a : BitVec 32) : a &&& PageMask = pageTag 12 a := rfl

lemma and_not_PageMask (a : BitVec 32) : a &&& ~~~ PageMask = pageOffset 12 a := by
  unfold PageMask
  rw [BitVec.not_not]
  rfl

lemma getElem?_extended {α : Type} {xs ys : List α} (h : xs <+: ys) {i : ℕ} {x : α}
    (hx : xs[i]? = some x) : ys[i]? = some x := by
  obtain ⟨zs, rfl⟩ := h
  rw [List.getElem?_append_left (List.getElem?_eq_some_iff.mp hx).1, hx]

/-- The page of a call: its space and virtual tag. -/
def pageOf (c : Space × BitVec 32) : Space × BitVec 32 := (c.1, c.2 &&& PageMask)

def Page.key (p : Page Space) : Space × BitVec 32 := (p.space, p.virtual_address)

def physicalPage (i : ℕ) : BitVec 32 := BitVec.ofNat 32 (i * 2 ^ 12)

lemma pageOffset_physicalPage (i : ℕ) : pageOffset 12 (physicalPage i) = 0#32 := by
  apply BitVec.eq_of_toNat_eq
  rw [toNat_pageOffset (by norm_num), physicalPage, BitVec.toNat_ofNat, BitVec.toNat_ofNat]
  omega

lemma physicalPage_injOn {i j : ℕ} (hi : i < 2 ^ 20) (hj : j < 2 ^ 20)
    (h : physicalPage i = physicalPage j) : i = j := by
  have h := congrArg BitVec.toNat h
  rw [physicalPage, physicalPage, BitVec.toNat_ofNat, BitVec.toNat_ofNat] at h
  omega

/-- What holds of the tables after any sequence of translations. -/
structure Tables (m : Mmu Space) : Prop where
  physical : ∀ i p, m.pages[i]? = some p → p.physical_address = physicalPage i
  top : m.top_physical_address = physicalPage m.pages.length
  virtual : ∀ s t p, m.virtual_pages s t = some p ↔ p ∈ m.pages ∧ p.key = (s, t)
  keys : (m.pages.map Page.key).Nodup
  tags : ∀ p ∈ m.pages, pageTag 12 p.virtual_address = p.virtual_address
  reverse : m.pages.length ≤ 2 ^ 20 →
    ∀ p ∈ m.pages, m.physical_pages p.physical_address = some p

lemma tables_empty : Tables ({} : Mmu Space) where
  physical i p hp := by cases hp
  top := by rw [physicalPage, List.length_nil, Nat.zero_mul]
  virtual s t p := by simp
  keys := List.nodup_nil
  tags p hp := by cases hp
  reverse _ p hp := by cases hp

lemma Tables.eq_of_key (h : Tables m) {p q : Page Space} (hp : p ∈ m.pages) (hq : q ∈ m.pages)
    (hkey : p.key = q.key) : p = q :=
  List.inj_on_of_nodup_map h.keys hp hq hkey

lemma Tables.aligned (h : Tables m) {p : Page Space} (hp : p ∈ m.pages) :
    pageOffset 12 p.physical_address = 0#32 := by
  obtain ⟨i, hi⟩ := List.getElem?_of_mem hp
  rw [h.physical i p hi, pageOffset_physicalPage]

lemma physicalPage_succ (i : ℕ) : physicalPage (i + 1) = physicalPage i + PageSize := by
  have hsize : PageSize = 4096#32 := rfl
  apply BitVec.eq_of_toNat_eq
  rw [hsize, BitVec.toNat_add]
  simp only [physicalPage, BitVec.toNat_ofNat]
  omega

section Create

variable [DecidableEq Space]

lemma mem_insertPage {p q : Page Space} :
    p ∈ (m.insertPage q).pages ↔ p ∈ m.pages ∨ p = q := by
  rw [insertPage, List.mem_append, List.mem_singleton]

lemma insertPage_virtual_pages (q : Page Space) (s : Space) (t : BitVec 32) :
    (m.insertPage q).virtual_pages s t = if (s, t) = q.key then some q else m.virtual_pages s t := by
  simp only [Page.key, Prod.mk.injEq]
  rfl

/-- The tables stay right when a page is created for a tag that has none. -/
lemma Tables.insertPage (h : Tables m) {s : Space} {t : BitVec 32} (ht : pageTag 12 t = t)
    (hfind : m.virtual_pages s t = none) : Tables (m.insertPage (m.newPage s t)) := by
  have hkey : (m.newPage s t).key = (s, t) := rfl
  have hnew : (s, t) ∉ m.pages.map Page.key := by
    intro hmem
    obtain ⟨p, hp, hpkey⟩ := List.mem_map.mp hmem
    rw [(h.virtual s t p).mpr ⟨hp, hpkey⟩] at hfind
    cases hfind
  constructor
  case physical =>
    intro i p hp
    have hp : (m.pages ++ [m.newPage s t])[i]? = some p := hp
    rw [List.getElem?_append] at hp
    by_cases hi : i < m.pages.length
    · rw [if_pos hi] at hp
      exact h.physical i p hp
    · rw [if_neg hi, List.getElem?_singleton] at hp
      by_cases hzero : i - m.pages.length = 0
      · rw [if_pos hzero, Option.some.injEq] at hp
        have hi : i = m.pages.length := by omega
        rw [← hp, hi, ← h.top]
        rfl
      · rw [if_neg hzero] at hp
        cases hp
  case top =>
    have hlen : (m.insertPage (m.newPage s t)).pages.length = m.pages.length + 1 := by
      rw [Mmu.insertPage, List.length_append, List.length_singleton]
    rw [hlen, physicalPage_succ, ← h.top]
    rfl
  case virtual =>
    intro s' t' p
    rw [insertPage_virtual_pages, hkey, mem_insertPage]
    by_cases hst : (s', t') = (s, t)
    · rw [if_pos hst, hst]
      constructor
      · intro heq
        rw [Option.some.injEq] at heq
        exact ⟨.inr heq.symm, by rw [← heq, hkey]⟩
      · rintro ⟨hmem | rfl, hpkey⟩
        · exact absurd (List.mem_map.mpr ⟨p, hmem, hpkey⟩) hnew
        · rfl
    · rw [if_neg hst, h.virtual]
      constructor
      · rintro ⟨hmem, hpkey⟩
        exact ⟨.inl hmem, hpkey⟩
      · rintro ⟨hmem | rfl, hpkey⟩
        · exact ⟨hmem, hpkey⟩
        · exact absurd (hpkey.symm.trans hkey) hst
  case keys =>
    have hmap : (m.insertPage (m.newPage s t)).pages.map Page.key =
        m.pages.map Page.key ++ [(s, t)] := by
      rw [Mmu.insertPage, List.map_append, List.map_singleton, hkey]
    rw [hmap, List.nodup_append]
    refine ⟨h.keys, List.nodup_singleton _, ?_⟩
    intro a ha b hb hab
    rw [List.mem_singleton] at hb
    rw [hab, hb] at ha
    exact hnew ha
  case tags =>
    intro p hp
    rcases mem_insertPage.mp hp with hp | rfl
    · exact h.tags p hp
    · exact ht
  case reverse =>
    intro hlen p hp
    have hlen : m.pages.length < 2 ^ 20 := by
      rw [Mmu.insertPage, List.length_append, List.length_singleton] at hlen
      omega
    have htop : (m.newPage s t).physical_address = physicalPage m.pages.length := h.top
    have hphysical : (m.insertPage (m.newPage s t)).physical_pages =
        Function.update m.physical_pages (physicalPage m.pages.length) (some (m.newPage s t)) := by
      rw [← htop]
      rfl
    rw [hphysical]
    rcases mem_insertPage.mp hp with hp | rfl
    · obtain ⟨i, hi⟩ := List.getElem?_of_mem hp
      have hlt := (List.getElem?_eq_some_iff.mp hi).1
      have hne : p.physical_address ≠ physicalPage m.pages.length := by
        rw [h.physical i p hi]
        intro heq
        have := physicalPage_injOn (by omega) (by omega) heq
        omega
      rw [Function.update_of_ne hne]
      exact h.reverse (by omega) p hp
    · rw [htop, Function.update_self]

lemma findPage_spec (h : Tables m) (s : Space) {t : BitVec 32} (ht : pageTag 12 t = t) :
    Tables (m.findPage s t).1 ∧ (m.findPage s t).2.key = (s, t) ∧
      m.pages <+: (m.findPage s t).1.pages ∧
      ∀ p, p ∈ (m.findPage s t).1.pages ↔ p ∈ m.pages ∨ p = (m.findPage s t).2 := by
  unfold findPage
  cases hfind : m.virtual_pages s t with
  | some q =>
    obtain ⟨hmem, hkey⟩ := (h.virtual s t q).mp hfind
    refine ⟨h, hkey, List.prefix_refl _, fun p => ⟨.inl, ?_⟩⟩
    rintro (hp | rfl)
    · exact hp
    · exact hmem
  | none => exact ⟨h.insertPage ht hfind, rfl, List.prefix_append _ _, fun p => mem_insertPage⟩

end Create

def Translated (m : Mmu Space) (c : Space × BitVec 32) (pa : BitVec 32) : Prop :=
  ∃ p ∈ m.pages, p.key = pageOf c ∧ pa = p.physical_address + pageOffset 12 c.2

section Calls

variable [DecidableEq Space]

lemma translateAll_spec (calls : List (Space × BitVec 32)) {m : Mmu Space} (h : Tables m) :
    Tables (translateAll calls m).1 ∧ m.pages <+: (translateAll calls m).1.pages ∧
      (∀ k, k ∈ (translateAll calls m).1.pages.map Page.key ↔
        k ∈ m.pages.map Page.key ∨ k ∈ calls.map pageOf) ∧
      (translateAll calls m).2.length = calls.length ∧
      ∀ x ∈ calls.zip (translateAll calls m).2, Translated (translateAll calls m).1 x.1 x.2 := by
  induction calls generalizing m with
  | nil => exact ⟨h, List.prefix_refl _, by simp [translateAll], rfl, by simp⟩
  | cons c calls ih =>
    obtain ⟨s, va⟩ := c
    obtain ⟨hfind, hkey, hpre, hmem⟩ := findPage_spec h s (pageTag_pageTag (k := 12) (a := va))
    obtain ⟨htables, hprefix, hkeys, hlen, hall⟩ := ih hfind
    simp only [translateAll, TranslateVirtualAddress, and_PageMask, and_not_PageMask]
    refine ⟨htables, hpre.trans hprefix, ?_, by rw [List.length_cons, hlen, List.length_cons], ?_⟩
    · intro k
      have hpage : pageOf (s, va) = (s, pageTag 12 va) := rfl
      rw [hkeys, List.map_cons, List.mem_cons, hpage, ← hkey, ← or_assoc]
      simp only [List.mem_map, hmem, or_and_right, exists_or, exists_eq_left, eq_comm]
    · intro x hx
      rw [List.zip_cons_cons, List.mem_cons] at hx
      rcases hx with rfl | hx
      · exact ⟨_, hprefix.subset ((hmem _).mpr (.inr rfl)), hkey, rfl⟩
      · exact hall x hx

lemma translateAll_append (calls more : List (Space × BitVec 32)) (m : Mmu Space) :
    translateAll (calls ++ more) m =
      ((translateAll more (translateAll calls m).1).1,
        (translateAll calls m).2 ++ (translateAll more (translateAll calls m).1).2) := by
  induction calls generalizing m with
  | nil => rfl
  | cons c calls ih =>
    simp only [List.cons_append, translateAll, ih]

/-- Distinct calls return distinct physical addresses, and each address translates back. -/
def Invertible (calls : List (Space × BitVec 32)) : Prop :=
  let run := translateAll calls {}
  (∀ x ∈ calls.zip run.2, ∀ y ∈ calls.zip run.2, x.2 = y.2 → x.1 = y.1) ∧
    ∀ x ∈ calls.zip run.2, run.1.TranslatePhysicalAddress x.2 = some x.1

lemma length_pages (calls : List (Space × BitVec 32)) :
    (translateAll calls {}).1.pages.length = (calls.map pageOf).toFinset.card := by
  obtain ⟨htables, -, hkeys, -, -⟩ := translateAll_spec calls tables_empty
  rw [← List.length_map Page.key, ← List.toFinset_card_of_nodup htables.keys]
  congr 1
  ext k
  rw [List.mem_toFinset, List.mem_toFinset, hkeys]
  simp

/-- `physical_pages` has an entry for each physical page. -/
def Registered (m : Mmu Space) : Prop :=
  ∀ a, (m.physical_pages a).isSome = true ↔ ∃ p ∈ m.pages, p.physical_address = a

lemma Registered.findPage (h : Registered m) (s : Space) (t : BitVec 32) :
    Registered (m.findPage s t).1 := by
  unfold Mmu.findPage
  cases m.virtual_pages s t with
  | some q => exact h
  | none =>
    intro a
    have hphysical : (m.insertPage (m.newPage s t)).physical_pages =
        Function.update m.physical_pages m.top_physical_address (some (m.newPage s t)) := rfl
    simp only [mem_insertPage, or_and_right, exists_or, exists_eq_left]
    rw [hphysical, ← h]
    by_cases ha : a = m.top_physical_address
    · rw [ha, Function.update_self]
      exact iff_of_true rfl (.inr rfl)
    · rw [Function.update_of_ne ha]
      exact (or_iff_left (Ne.symm ha)).symm

lemma Registered.translateAll (calls : List (Space × BitVec 32)) (h : Registered m) :
    Registered (translateAll calls m).1 := by
  induction calls generalizing m with
  | nil => exact h
  | cons c calls ih => exact ih (h.findPage _ _)

/-- The valid physical addresses are those of the first pages, as many as virtual pages were used. -/
theorem isValidPhysicalAddress_iff (calls : List (Space × BitVec 32)) (pa : BitVec 32) :
    (translateAll calls {}).1.isValidPhysicalAddress pa = true ↔
      pa.toNat / 2 ^ 12 < (calls.map pageOf).toFinset.card := by
  obtain ⟨htables, -⟩ := translateAll_spec calls tables_empty
  have hregistered : Registered (Mmu.translateAll calls {}).1 :=
    Registered.translateAll calls fun a => by simp
  have htag : ∀ i, physicalPage i = pageTag 12 pa ↔ i % 2 ^ 20 = pa.toNat / 2 ^ 12 := by
    intro i
    rw [← BitVec.toNat_inj, physicalPage, BitVec.toNat_ofNat, toNat_pageTag (by norm_num)]
    omega
  rw [isValidPhysicalAddress, and_PageMask, hregistered, ← length_pages]
  constructor
  · rintro ⟨p, hp, heq⟩
    obtain ⟨i, hi⟩ := List.getElem?_of_mem hp
    rw [htables.physical i p hi, htag] at heq
    have hlt := (List.getElem?_eq_some_iff.mp hi).1
    omega
  · intro hlt
    refine ⟨_, List.getElem_mem hlt, ?_⟩
    rw [htables.physical _ _ (List.getElem?_eq_getElem hlt), htag, Nat.mod_eq_of_lt (by omega)]

omit [DecidableEq Space] in
lemma Tables.translate_back (h : Tables m) (hlen : m.pages.length ≤ 2 ^ 20)
    {c : Space × BitVec 32} {pa : BitVec 32} (hc : Translated m c pa) :
    m.TranslatePhysicalAddress pa = some c := by
  obtain ⟨p, hp, hkey, rfl⟩ := hc
  have hlt : (pageOffset 12 c.2).toNat < 2 ^ 12 := pageOffset_lt (by norm_num)
  rw [Page.key, pageOf, Prod.mk.injEq, and_PageMask] at hkey
  unfold TranslatePhysicalAddress
  simp only [and_PageMask, and_not_PageMask]
  rw [pageTag_add_of_aligned (by norm_num) (h.aligned hp) hlt,
    pageOffset_add_of_aligned (by norm_num) (h.aligned hp) hlt, h.reverse hlen p hp]
  simp only [hkey.1, hkey.2, pageTag_add_pageOffset]

lemma invertible_of_card_le {calls : List (Space × BitVec 32)}
    (hcard : (calls.map pageOf).toFinset.card ≤ 2 ^ 20) : Invertible calls := by
  obtain ⟨htables, -, -, -, hall⟩ := translateAll_spec calls tables_empty
  have hback : ∀ x ∈ calls.zip (translateAll calls {}).2,
      (translateAll calls {}).1.TranslatePhysicalAddress x.2 = some x.1 := by
    intro x hx
    apply htables.translate_back _ (hall x hx)
    rw [length_pages]
    exact hcard
  refine ⟨?_, hback⟩
  intro x hx y hy hxy
  have hx := hback x hx
  rw [hxy, hback y hy, Option.some.injEq] at hx
  exact hx.symm

omit [DecidableEq Space] in
lemma translate_key {m : Mmu Space} (h : Tables m) {i : ℕ} {p : Page Space}
    (hi : m.pages[i]? = some p) {pa : BitVec 32} (hc : Translated m p.key pa) :
    pa = physicalPage i := by
  obtain ⟨q, hq, hkey, rfl⟩ := hc
  have hp : p ∈ m.pages := List.mem_of_getElem? hi
  have htag : pageTag 12 p.virtual_address = p.virtual_address := h.tags p hp
  have hpage : pageOf p.key = p.key := by rw [pageOf, and_PageMask, Page.key, htag]
  rw [hpage] at hkey
  have hzero : pageOffset 12 p.virtual_address = 0#32 := by rw [← htag, pageOffset_pageTag]
  rw [h.eq_of_key hq hp hkey, h.physical i p hi, Page.key, hzero, BitVec.add_zero]

lemma not_invertible_of_card_gt {calls : List (Space × BitVec 32)}
    (hcard : 2 ^ 20 < (calls.map pageOf).toFinset.card) :
    ∃ more, (∀ c ∈ more, pageOf c ∈ calls.map pageOf) ∧ ¬ Invertible (calls ++ more) := by
  obtain ⟨htables, -, hkeys, hlen, -⟩ := translateAll_spec calls tables_empty
  rw [← length_pages] at hcard
  set m := (translateAll calls {}).1 with hm
  obtain ⟨p, hp⟩ : ∃ p, m.pages[0]? = some p := ⟨_, List.getElem?_eq_getElem (by omega)⟩
  obtain ⟨q, hq⟩ : ∃ q, m.pages[2 ^ 20]? = some q := ⟨_, List.getElem?_eq_getElem hcard⟩
  have hpage : ∀ r ∈ m.pages, pageOf r.key ∈ calls.map pageOf := by
    intro r hr
    have hkey : pageOf r.key = r.key := by rw [pageOf, and_PageMask, Page.key, htables.tags r hr]
    have hmem := (hkeys _).mp (List.mem_map_of_mem hr)
    rw [hkey]
    simpa using hmem
  have hpm : p ∈ m.pages := List.mem_of_getElem? hp
  have hqm : q ∈ m.pages := List.mem_of_getElem? hq
  refine ⟨[p.key, q.key], ?_, ?_⟩
  · intro c hc
    rcases List.mem_pair.mp hc with rfl | rfl
    · exact hpage p hpm
    · exact hpage q hqm
  · rintro ⟨hinj, -⟩
    rw [translateAll_append, List.zip_append hlen.symm] at hinj
    obtain ⟨htables', hpre, -, hlen', hall⟩ := translateAll_spec [p.key, q.key] htables
    obtain ⟨pa, pb, hpas⟩ := List.length_eq_two.mp hlen'
    rw [hpas] at hinj hall
    have hpa : pa = physicalPage 0 :=
      translate_key htables' (getElem?_extended hpre hp) (hall (p.key, pa) (by simp))
    have hpb : pb = physicalPage (2 ^ 20) :=
      translate_key htables' (getElem?_extended hpre hq) (hall (q.key, pb) (by simp))
    have hsame : pa = pb := by
      rw [hpa, hpb]
      decide
    have hkey : p.key = q.key :=
      hinj (p.key, pa) (by simp) (q.key, pb) (by simp) hsame
    have hkeys : (m.pages.map Page.key)[0]? = (m.pages.map Page.key)[2 ^ 20]? := by
      rw [List.getElem?_map, List.getElem?_map, hp, hq, Option.map_some, Option.map_some, hkey]
    have hzero : 0 < (m.pages.map Page.key).length := by
      rw [List.length_map]
      omega
    have := (List.getElem?_inj hzero htables.keys).mp hkeys
    omega

/-- The sequences of calls to the pages of `calls` are all invertible exactly when these are at
most `2 ^ 20` pages, as many as the physical address space has. -/
theorem translations_invertible_iff (calls : List (Space × BitVec 32)) :
    (∀ more, (∀ c ∈ more, pageOf c ∈ calls.map pageOf) → Invertible (calls ++ more)) ↔
      (calls.map pageOf).toFinset.card ≤ 2 ^ 20 := by
  constructor
  · intro h
    by_contra hcard
    obtain ⟨more, hmore, hnot⟩ := not_invertible_of_card_gt (not_le.mp hcard)
    exact hnot (h more hmore)
  · intro hcard more hmore
    apply invertible_of_card_le
    apply le_trans (Finset.card_le_card _) hcard
    intro k hk
    rw [List.mem_toFinset, List.map_append, List.mem_append] at hk
    rw [List.mem_toFinset]
    rcases hk with hk | hk
    · exact hk
    · obtain ⟨c, hc, rfl⟩ := List.mem_map.mp hk
      exact hmore c hc

end Calls

/-- Calls to the first `n` pages of space 0. -/
def firstPages (n : ℕ) : List (ℕ × BitVec 32) := (List.range n).map fun i => (0, physicalPage i)

lemma pageOf_firstPage (s i : ℕ) : pageOf (s, physicalPage i) = (s, physicalPage i) := by
  have h := pageTag_add_pageOffset (k := 12) (a := physicalPage i)
  rw [pageOffset_physicalPage, BitVec.add_zero] at h
  rw [pageOf, and_PageMask, h]

lemma firstPages_map_pageOf (n : ℕ) : (firstPages n).map pageOf = firstPages n := by
  rw [firstPages, List.map_map]
  apply List.map_congr_left
  intro i _
  exact pageOf_firstPage 0 i

lemma firstPages_nodup {n : ℕ} (hn : n ≤ 2 ^ 20) : (firstPages n).Nodup := by
  apply List.Nodup.map_on _ List.nodup_range
  intro i hi j hj hij
  rw [List.mem_range] at hi hj
  exact physicalPage_injOn (by omega) (by omega) (Prod.mk.inj hij).2

lemma translate_after_firstPages {n : ℕ} (hn : n ≤ 2 ^ 20) :
    (translateAll [(1, 0#32)] (translateAll (firstPages n) {}).1).2 = [physicalPage n] := by
  obtain ⟨htables, -, hkeys, -, -⟩ := translateAll_spec (firstPages n) tables_empty
  have hlen : (translateAll (firstPages n) {}).1.pages.length = n := by
    rw [length_pages, firstPages_map_pageOf, List.toFinset_card_of_nodup (firstPages_nodup hn),
      firstPages, List.length_map, List.length_range]
  have hnone : (translateAll (firstPages n) {}).1.virtual_pages 1 0#32 = none := by
    cases hpage : (translateAll (firstPages n) {}).1.virtual_pages 1 0#32 with
    | none => rfl
    | some p =>
      obtain ⟨hp, hkey⟩ := (htables.virtual _ _ _).mp hpage
      have hmem := (hkeys _).mp (List.mem_map_of_mem hp)
      rw [hkey, firstPages_map_pageOf] at hmem
      simp [firstPages] at hmem
  have htop := htables.top
  rw [hlen] at htop
  simp only [translateAll, TranslateVirtualAddress, and_PageMask, and_not_PageMask]
  have htag : pageTag 12 0#32 = 0#32 := by decide
  have hoffset : pageOffset 12 0#32 = 0#32 := by decide
  rw [htag, hoffset, findPage, hnone, BitVec.add_zero]
  exact congrArg (fun a => [a]) htop

lemma not_invertible_of_wrap {n : ℕ} (hn : n + 1 ≤ 2 ^ 20) (hwrap : physicalPage (n + 1) = 0#32) :
    ¬ Invertible (firstPages (n + 1) ++ [(1, 0#32)]) := by
  rintro ⟨hinj, -⟩
  obtain ⟨-, -, -, hlen, -⟩ := translateAll_spec (firstPages (n + 1)) tables_empty
  rw [translateAll_append, List.zip_append hlen.symm, translate_after_firstPages hn] at hinj
  have hcons : firstPages (n + 1) = (0, 0#32) :: (List.range n).map
      fun i => (0, physicalPage (i + 1)) := by
    rw [firstPages, List.range_succ_eq_map, List.map_cons, List.map_map]
    rfl
  have hfirst : (((0 : ℕ), 0#32), 0#32) ∈
      (firstPages (n + 1)).zip (translateAll (firstPages (n + 1)) {}).2 := by
    rw [hcons, translateAll, List.zip_cons_cons, List.mem_cons]
    left
    rfl
  have heq := hinj _ (List.mem_append_left _ hfirst) ((1, 0#32), physicalPage (n + 1))
    (List.mem_append_right _ (List.mem_singleton.mpr rfl)) hwrap.symm
  cases heq

/-- One call after all pages of a space have been used reuses the physical page of its first. -/
theorem not_invertible_two_spaces : ¬ Invertible (firstPages (1048575 + 1) ++ [(1, 0#32)]) := by
  apply not_invertible_of_wrap
  · norm_num
  · decide

end OISA.Memory.Mmu
