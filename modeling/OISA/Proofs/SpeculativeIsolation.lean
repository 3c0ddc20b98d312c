import OISA.Memory.SpecMem
import OISA.Proofs.MemoryRefinement

/-!
# Speculative memory is isolated

Speculative accesses leave the memory as it is, and a speculative read returns the bytes last
written since the last clear, over the bytes of the memory, while the written bytes lie in at most
`MaxPages` speculative pages.
-/

namespace OISA.SpecMem

open OISA.Lib

variable {m : Memory} {s s' : SpecMem} {a b : BitVec 32} {page : Page}
  {access : Memory.AccessType} {x : UInt8} {xs : List UInt8}

lemma and_not_PageMask (a : BitVec 32) : a &&& ~~~ PageMask = pageOffset LogPageSize a := by
  unfold PageMask
  rw [BitVec.not_not]
  rfl

lemma logPageSize_lt : LogPageSize < 32 := by decide

section UnsafeReads

lemma unsafe_byte (hsafe : m.safe = false) (haccess : access = .Read ∨ access = .Exec)
    (x : UInt8) :
    Memory.AccessAtPageBoundary access a [x] m = ⟨m, [m.view.value a], none⟩ := by
  have hlen : (pageOffset Memory.LogPageSize a).toNat + [x].length ≤ 2 ^ Memory.LogPageSize :=
    pageOffset_lt Memory.logPageSize_lt
  cases hget : m.getPage a with
  | none =>
    rw [Memory.accessAtPageBoundary_zeros hget hsafe haccess hlen, FlatMemory.value,
      Memory.view, hget]
    rfl
  | some page =>
    have hallowed : ¬ page.Denied m.safe access := by
      rw [Memory.Page.Denied, hsafe]
      exact Bool.false_ne_true
    have hsame : page.touch access = page := by
      rcases haccess with rfl | rfl <;> rfl
    rw [Memory.accessAtPageBoundary_of_page hget hlen, Memory.Page.access_read hallowed haccess,
      Memory.onPage, FlatMemory.value, Memory.view, hget]
    simp only [hsame, Memory.setPage_self hget]
    rfl

lemma unsafe_access (hsafe : m.safe = false) (haccess : access = .Read ∨ access = .Exec)
    (a : BitVec 32) (buffer : List UInt8) :
    m.Access a buffer access = ⟨m, m.view.bytes a buffer.length, none⟩ := by
  rw [Memory.access_eq_bytewise]
  induction buffer generalizing a with
  | nil => rfl
  | cons x xs ih =>
    rw [bytewise, unsafe_byte hsafe haccess, Outcome.append_of_none rfl, List.length_cons,
      FlatMemory.bytes_succ]
    simp only [ih]
    rfl

lemma unsafe_read (hsafe : m.safe = false) (a : BitVec 32) (buffer : List UInt8) :
    m.Read a buffer = ⟨m, m.view.bytes a buffer.length, none⟩ :=
  unsafe_access hsafe (.inl rfl) a buffer

lemma unsafeRead_eq (m : Memory) (a : BitVec 32) (buffer : List UInt8) :
    unsafeRead m a buffer = ⟨m, m.view.bytes a buffer.length, none⟩ := by
  have hread : { m with safe := false }.Read a buffer =
      ⟨{ m with safe := false }, m.view.bytes a buffer.length, none⟩ := unsafe_read rfl a buffer
  unfold unsafeRead
  rw [hread]

end UnsafeReads

section Table

lemma getPage_eq (s : SpecMem) (a : BitVec 32) : s.getPage a =
    (s.pages (index (pageTag LogPageSize a))).find? (·.address = pageTag LogPageSize a) := rfl

lemma getPage_of_tag (h : pageTag LogPageSize a = pageTag LogPageSize b) :
    s.getPage a = s.getPage b := by
  rw [getPage_eq, getPage_eq, h]

lemma address_of_getPage (h : s.getPage a = some page) : page.address = pageTag LogPageSize a := by
  rw [getPage_eq] at h
  simpa using List.find?_some h

lemma find?_replacePage (t : BitVec 32) (chain : List Page) :
    (replacePage page chain).find? (·.address = t) =
      if t = page.address then (chain.find? (·.address = t)).map fun _ => page
      else chain.find? (·.address = t) := by
  induction chain with
  | nil => simp [replacePage]
  | cons p chain ih =>
    rw [replacePage]
    by_cases hp : p.address = page.address
    · rw [if_pos hp]
      by_cases ht : t = page.address
      · simp [hp, ht]
      · have hpage : page.address ≠ t := Ne.symm ht
        simp [hp, ht, hpage]
    · rw [if_neg hp]
      by_cases hpt : p.address = t
      · have ht : t ≠ page.address := by
          rw [← hpt]
          exact hp
        simp [hpt, ht]
      · simp only [List.find?_cons, hpt, decide_false]
        exact ih

lemma replacePage_replacePage {p q : Page} (h : p.address = q.address) (chain : List Page) :
    replacePage q (replacePage p chain) = replacePage q chain := by
  induction chain with
  | nil => rfl
  | cons r chain ih =>
    by_cases hr : r.address = p.address
    · simp only [replacePage, hr, h, if_true]
    · have hrq : r.address ≠ q.address := by
        rw [← h]
        exact hr
      simp only [replacePage, hr, hrq, if_false, ih]

lemma setPage_setPage {p q : Page} (h : p.address = q.address) :
    (s.setPage p).setPage q = s.setPage q := by
  unfold setPage
  simp only [h, Function.update_self, Function.update_idem, replacePage_replacePage h]

lemma getPage_setPage {old : Page} (hold : s.getPage a = some old)
    (haddress : page.address = pageTag LogPageSize a) :
    (s.setPage page).getPage b =
      if pageTag LogPageSize b = pageTag LogPageSize a then some page else s.getPage b := by
  have hfound : (s.pages (index (pageTag LogPageSize a))).find?
      (·.address = pageTag LogPageSize a) = some old := hold
  rw [getPage_eq, getPage_eq]
  unfold setPage
  by_cases htag : pageTag LogPageSize b = pageTag LogPageSize a
  · rw [if_pos htag, htag]
    simp only [haddress, Function.update_self]
    rw [find?_replacePage, if_pos haddress.symm, hfound]
    rfl
  · rw [if_neg htag]
    by_cases hindex : index (pageTag LogPageSize b) = index page.address
    · have hne : pageTag LogPageSize b ≠ page.address := by
        rw [haddress]
        exact htag
      simp only [hindex, Function.update_self]
      rw [find?_replacePage, if_neg hne]
    · simp only [Function.update_of_ne hindex]

def freshPage (s : SpecMem) (a : BitVec 32) : Page :=
  ⟨pageTag LogPageSize a, fun i =>
    (s.memory.view.bytes (pageTag LogPageSize a) PageSize.toNat)[i]?.getD 0⟩

def addPage (s : SpecMem) (a : BitVec 32) : SpecMem :=
  { s with
    num_pages := s.num_pages + 1
    pages := Function.update s.pages (index (pageTag LogPageSize a))
      (s.freshPage a :: s.pages (index (pageTag LogPageSize a))) }

lemma newPage_eq (s : SpecMem) (a : BitVec 32) :
    (s.newPage a).error = none ∧ (s.newPage a).state = s.addPage a := by
  unfold newPage
  simp only [unsafeRead_eq, List.length_replicate]
  exact ⟨trivial, rfl⟩

lemma getPage_addPage : (s.addPage a).getPage b =
    if pageTag LogPageSize b = pageTag LogPageSize a then some (s.freshPage a)
    else s.getPage b := by
  rw [getPage_eq, getPage_eq]
  unfold addPage
  by_cases htag : pageTag LogPageSize b = pageTag LogPageSize a
  · rw [if_pos htag, htag]
    simp only [Function.update_self]
    exact List.find?_cons_of_pos (by simp [freshPage])
  · rw [if_neg htag]
    by_cases hindex : index (pageTag LogPageSize b) = index (pageTag LogPageSize a)
    · simp only [hindex, Function.update_self]
      apply List.find?_cons_of_neg
      rw [decide_eq_true_eq]
      exact Ne.symm htag
    · simp only [Function.update_of_ne hindex]

end Table

section Splitting

lemma inside_page {n : ℕ} (h : (pageOffset LogPageSize a).toNat + n ≤ 2 ^ LogPageSize) :
    ¬ PageSize.toNat < (a &&& ~~~ PageMask).toNat + n := by
  rw [and_not_PageMask]
  exact Nat.not_lt.mpr h

lemma accessPage_read {buffer : List UInt8}
    (h : (pageOffset LogPageSize a).toNat + buffer.length ≤ 2 ^ LogPageSize) :
    s.accessPage page .Read a buffer = ⟨s, (List.range buffer.length).map fun i =>
      page.data ((pageOffset LogPageSize a).toNat + i), none⟩ := by
  unfold accessPage
  rw [if_neg (inside_page h), and_not_PageMask]

lemma accessPage_write {buffer : List UInt8}
    (h : (pageOffset LogPageSize a).toNat + buffer.length ≤ 2 ^ LogPageSize) :
    s.accessPage page .Write a buffer =
      ⟨s.setPage (page.write (pageOffset LogPageSize a).toNat buffer), buffer, none⟩ := by
  unfold accessPage
  rw [if_neg (inside_page h), and_not_PageMask]

lemma accessAligned_of_page {buffer : List UInt8} (h : s.getPage a = some page) :
    AccessAligned access a buffer s = s.accessPage page access a buffer := by
  unfold AccessAligned
  rw [h]

lemma accessAligned_memory {buffer : List UInt8} (h : s.getPage a = none) :
    AccessAligned .Read a buffer s = ⟨s, s.memory.view.bytes a buffer.length, none⟩ := by
  unfold AccessAligned
  rw [h]
  simp only [unsafeRead_eq]

lemma accessAligned_ignored {buffer : List UInt8} (h : s.getPage a = none)
    (hfull : MaxPages ≤ s.num_pages) : AccessAligned .Write a buffer s = ⟨s, buffer, none⟩ := by
  unfold AccessAligned
  rw [h]
  exact if_pos hfull

lemma accessAligned_create {buffer : List UInt8} (h : s.getPage a = none)
    (hroom : s.num_pages < MaxPages) : AccessAligned .Write a buffer s =
      (s.addPage a).accessPage (s.freshPage a) .Write a buffer := by
  have hpage : (s.addPage a).getPage a = some (s.freshPage a) := by
    rw [getPage_addPage, if_pos rfl]
  obtain ⟨herror, hstate⟩ := newPage_eq s a
  unfold AccessAligned
  rw [h]
  simp only [herror, hstate, hpage]
  exact if_neg (Nat.not_le.mpr hroom)

lemma accessPage_cons (hpage : s.getPage a = some page)
    (h : (pageOffset LogPageSize a).toNat + 1 < 2 ^ LogPageSize)
    (hlen : (pageOffset LogPageSize a).toNat + (xs.length + 1) ≤ 2 ^ LogPageSize) :
    s.accessPage page .Write a (x :: xs) =
      (s.accessPage page .Write a [x]).append xs (AccessAligned .Write (a + 1#32) xs) := by
  have hoffset := toNat_pageOffset_succ logPageSize_lt h
  have hfirst : (pageOffset LogPageSize a).toNat + [x].length ≤ 2 ^ LogPageSize := h.le
  have hall : (pageOffset LogPageSize a).toNat + (x :: xs).length ≤ 2 ^ LogPageSize := hlen
  have hrest : (pageOffset LogPageSize (a + 1#32)).toNat + xs.length ≤ 2 ^ LogPageSize := by
    omega
  set written := page.write (pageOffset LogPageSize a).toNat [x] with hwritten
  have hnext : (s.setPage written).getPage (a + 1#32) = some written := by
    have haddress : page.address = pageTag LogPageSize a := address_of_getPage hpage
    rw [getPage_setPage hpage (by exact haddress), if_pos (pageTag_succ logPageSize_lt h)]
  have hsplit : written.write ((pageOffset LogPageSize a).toNat + 1) xs =
      page.write (pageOffset LogPageSize a).toNat (x :: xs) := by
    exact congrArg (Page.mk page.address) (Memory.memcpy_cons page.data _ x xs).symm
  rw [accessPage_write hall, accessPage_write hfirst, Outcome.append_of_none rfl, ← hwritten]
  have hset : (s.setPage written).setPage (page.write (pageOffset LogPageSize a).toNat (x :: xs)) =
      s.setPage (page.write (pageOffset LogPageSize a).toNat (x :: xs)) := setPage_setPage rfl
  simp only []
  rw [accessAligned_of_page hnext, accessPage_write hrest, hoffset, hsplit, hset]
  rfl

lemma splits_read : Splits LogPageSize (AccessAligned .Read) := by
  intro a x xs s hne hlen
  have hpos : 0 < xs.length := List.length_pos_of_ne_nil hne
  have hsucc : (pageOffset LogPageSize a).toNat + 1 < 2 ^ LogPageSize := by omega
  have hoffset := toNat_pageOffset_succ logPageSize_lt hsucc
  have hnext := getPage_of_tag (s := s) (pageTag_succ logPageSize_lt hsucc)
  have hfirst : (pageOffset LogPageSize a).toNat + [x].length ≤ 2 ^ LogPageSize := hsucc.le
  have hall : (pageOffset LogPageSize a).toNat + (x :: xs).length ≤ 2 ^ LogPageSize := hlen
  have hrest : (pageOffset LogPageSize (a + 1#32)).toNat + xs.length ≤ 2 ^ LogPageSize := by
    omega
  cases hget : s.getPage a with
  | some page =>
    rw [hget] at hnext
    rw [accessAligned_of_page hget, accessAligned_of_page hget, accessPage_read hall,
      accessPage_read hfirst, Outcome.append_of_none rfl, accessAligned_of_page hnext,
      accessPage_read hrest, hoffset]
    congr 1
    rw [List.length_cons, List.range_succ_eq_map, List.map_cons, List.map_map]
    congr 1
    apply List.map_congr_left
    intro i _
    rw [Function.comp_apply, Nat.succ_eq_add_one, Nat.add_assoc, Nat.add_comm 1 i]
  | none =>
    rw [hget] at hnext
    rw [accessAligned_memory hget, accessAligned_memory hget, Outcome.append_of_none rfl,
      accessAligned_memory hnext, List.length_cons, FlatMemory.bytes_succ]
    rw [List.length_singleton, FlatMemory.bytes_succ]
    rfl

lemma splits_write : Splits LogPageSize (AccessAligned .Write) := by
  intro a x xs s hne hlen
  have hpos : 0 < xs.length := List.length_pos_of_ne_nil hne
  have hsucc : (pageOffset LogPageSize a).toNat + 1 < 2 ^ LogPageSize := by omega
  have hnext := getPage_of_tag (s := s) (pageTag_succ logPageSize_lt hsucc)
  cases hget : s.getPage a with
  | some page =>
    rw [accessAligned_of_page hget, accessAligned_of_page hget]
    exact accessPage_cons hget hsucc hlen
  | none =>
    rw [hget] at hnext
    by_cases hfull : MaxPages ≤ s.num_pages
    · rw [accessAligned_ignored hget hfull, accessAligned_ignored hget hfull,
        Outcome.append_of_none rfl, accessAligned_ignored hnext hfull]
      rfl
    · have hroom := Nat.lt_of_not_le hfull
      have hpage : (s.addPage a).getPage a = some (s.freshPage a) := by
        rw [getPage_addPage, if_pos rfl]
      rw [accessAligned_create hget hroom, accessAligned_create hget hroom]
      exact accessPage_cons hpage hsucc hlen

end Splitting

section Bytes

/-- The byte that a read of an address returns. -/
def value (s : SpecMem) (a : BitVec 32) : UInt8 :=
  match s.getPage a with
  | some page => page.data (pageOffset LogPageSize a).toNat
  | none => s.memory.view.value a

lemma one_le (x : UInt8) : (pageOffset LogPageSize a).toNat + [x].length ≤ 2 ^ LogPageSize :=
  pageOffset_lt logPageSize_lt

lemma read_byte (x : UInt8) : AccessAligned .Read a [x] s = ⟨s, [s.value a], none⟩ := by
  cases hget : s.getPage a with
  | some page =>
    rw [accessAligned_of_page hget, accessPage_read (one_le x), value, hget]
    rfl
  | none =>
    rw [accessAligned_memory hget, value, hget, List.length_singleton, FlatMemory.bytes_succ]
    rfl

/-- A read returns the values of its bytes and changes nothing. -/
theorem read_spec (s : SpecMem) (a : BitVec 32) (buffer : List UInt8) : s.Read a buffer =
    ⟨s, (List.range buffer.length).map fun i => s.value (a + BitVec.ofNat 32 i), none⟩ := by
  rw [Read, Access, transfer_eq_bytewise logPageSize_lt splits_read]
  induction buffer generalizing a with
  | nil => rfl
  | cons x xs ih =>
    rw [bytewise, read_byte, Outcome.append_of_none rfl, ih, List.length_cons,
      List.range_succ_eq_map, List.map_cons, List.map_map, BitVec.add_zero]
    have hshift : (fun i => s.value (a + BitVec.ofNat 32 i)) ∘ Nat.succ =
        fun i => s.value (a + 1#32 + BitVec.ofNat 32 i) := by
      funext i
      rw [Function.comp_apply, Nat.succ_eq_add_one, FlatMemory.ofNat_succ a i]
    rw [hshift]
    rfl

lemma value_freshPage (h : pageTag LogPageSize b = pageTag LogPageSize a) :
    (s.freshPage a).data (pageOffset LogPageSize b).toNat = s.memory.view.value b := by
  have hlt : (pageOffset LogPageSize b).toNat < PageSize.toNat := pageOffset_lt logPageSize_lt
  have hb : pageTag LogPageSize a + BitVec.ofNat 32 (pageOffset LogPageSize b).toNat = b := by
    rw [← h, BitVec.ofNat_toNat, BitVec.setWidth_eq, pageTag_add_pageOffset]
  unfold freshPage FlatMemory.bytes
  simp only [List.getElem?_map, List.getElem?_range hlt, Option.map_some, Option.getD_some, hb]

lemma write_page_byte (hget : s.getPage a = some page) (x : UInt8) :
    ∃ s', s.accessPage page .Write a [x] = ⟨s', [x], none⟩ ∧ s'.memory = s.memory ∧
      s'.num_pages = s.num_pages ∧ s'.value = Function.update s.value a x ∧
      ∀ b, (s'.getPage b).isSome = (s.getPage b).isSome := by
  have hpage : page.address = pageTag LogPageSize a := address_of_getPage hget
  have haddress : (page.write (pageOffset LogPageSize a).toNat [x]).address =
      pageTag LogPageSize a := hpage
  rw [accessPage_write (one_le x)]
  refine ⟨_, rfl, rfl, rfl, ?_, ?_⟩
  · funext b
    rw [value, getPage_setPage hget haddress]
    by_cases htag : pageTag LogPageSize b = pageTag LogPageSize a
    · rw [if_pos htag]
      change Memory.memcpy page.data _ [x] _ = _
      rw [Memory.memcpy_singleton]
      by_cases hb : b = a
      · rw [if_pos (by rw [hb]), hb, Function.update_self]
      · have hoffset : (pageOffset LogPageSize b).toNat ≠ (pageOffset LogPageSize a).toNat := by
          intro heq
          exact hb (eq_of_tag_offset htag (BitVec.eq_of_toNat_eq heq))
        rw [if_neg hoffset, Function.update_of_ne hb, value, getPage_of_tag htag, hget]
    · have hb : b ≠ a := by
        rintro rfl
        exact htag rfl
      rw [if_neg htag, Function.update_of_ne hb]
      rfl
  · intro b
    rw [getPage_setPage hget haddress]
    split_ifs with htag
    · rw [getPage_of_tag htag, hget]
      rfl
    · rfl

lemma value_addPage (hget : s.getPage a = none) : (s.addPage a).value = s.value := by
  funext b
  rw [value, getPage_addPage]
  by_cases htag : pageTag LogPageSize b = pageTag LogPageSize a
  · rw [if_pos htag, value, getPage_of_tag htag, hget]
    exact value_freshPage htag
  · rw [if_neg htag]
    rfl

lemma write_byte (hroom : (s.getPage a).isSome ∨ s.num_pages < MaxPages) (x : UInt8) :
    ∃ s', AccessAligned .Write a [x] s = ⟨s', [x], none⟩ ∧ s'.memory = s.memory ∧
      s'.num_pages = (if (s.getPage a).isSome then s.num_pages else s.num_pages + 1) ∧
      s'.value = Function.update s.value a x ∧ ∀ b, (s'.getPage b).isSome =
        ((s.getPage b).isSome || pageTag LogPageSize b = pageTag LogPageSize a) := by
  cases hget : s.getPage a with
  | some page =>
    obtain ⟨s', hs', hmemory, hnum, hvalue, htable⟩ := write_page_byte hget x
    refine ⟨s', ?_, hmemory, hnum, hvalue, ?_⟩
    · rw [accessAligned_of_page hget, hs']
    · intro b
      rw [htable]
      by_cases htag : pageTag LogPageSize b = pageTag LogPageSize a
      · rw [getPage_of_tag htag, hget]
        rfl
      · simp [htag]
  | none =>
    rw [hget] at hroom
    have hlt : s.num_pages < MaxPages := hroom.resolve_left Bool.false_ne_true
    have hpage : (s.addPage a).getPage a = some (s.freshPage a) := by
      rw [getPage_addPage, if_pos rfl]
    obtain ⟨s', hs', hmemory, hnum, hvalue, htable⟩ := write_page_byte hpage x
    refine ⟨s', ?_, hmemory, hnum, ?_, ?_⟩
    · rw [accessAligned_create hget hlt, hs']
    · rw [hvalue, value_addPage hget]
    · intro b
      rw [htable, getPage_addPage]
      by_cases htag : pageTag LogPageSize b = pageTag LogPageSize a
      · simp [htag]
      · simp [htag]

end Bytes

/-- What speculative memory is for: the bytes written since the last clear, and the speculative
pages they lie in. -/
structure Overlay where
  written : BitVec 32 → Option UInt8 := fun _ => none
  tags : Finset (BitVec 32) := ∅

namespace Overlay

def put (o : Overlay) (a : BitVec 32) (x : UInt8) : Overlay :=
  ⟨Function.update o.written a (some x), insert (pageTag LogPageSize a) o.tags⟩

def write : BitVec 32 → List UInt8 → Overlay → Overlay
  | _, [], o => o
  | a, x :: xs, o => write (a + 1#32) xs (o.put a x)

def step (o : Overlay) : Op → Overlay
  | .read _ _ => o
  | .write address buffer => o.write address buffer
  | .clear => {}

/-- The last byte written, or else the byte of the memory. -/
def value (o : Overlay) (m : Memory) (a : BitVec 32) : UInt8 :=
  (o.written a).getD (m.view.value a)

lemma tags_subset_write (o : Overlay) (a : BitVec 32) (xs : List UInt8) :
    o.tags ⊆ (o.write a xs).tags := by
  induction xs generalizing o a with
  | nil => exact subset_rfl
  | cons x xs ih => exact (Finset.subset_insert _ _).trans (ih (o.put a x) (a + 1#32))

end Overlay

section Simulation

variable {o : Overlay}

/-- The speculative memory shows the overlay over an unchanged memory. -/
structure Simulates (m : Memory) (s : SpecMem) (o : Overlay) : Prop where
  memory : s.memory = m
  value : ∀ a, s.value a = o.value m a
  count : s.num_pages = o.tags.card
  table : ∀ a, (s.getPage a).isSome = true ↔ pageTag LogPageSize a ∈ o.tags

lemma simulates_new (m : Memory) : Simulates m { memory := m } {} where
  memory := rfl
  value a := rfl
  count := rfl
  table a := by simp [getPage_eq]

lemma Simulates.put (h : Simulates m s o) (hfits : (o.put a x).tags.card ≤ MaxPages) :
    ∃ s', AccessAligned .Write a [x] s = ⟨s', [x], none⟩ ∧ Simulates m s' (o.put a x) := by
  have hroom : (s.getPage a).isSome ∨ s.num_pages < MaxPages := by
    by_cases htag : pageTag LogPageSize a ∈ o.tags
    · exact .inl ((h.table a).mpr htag)
    · rw [Overlay.put, Finset.card_insert_of_notMem htag] at hfits
      rw [h.count]
      exact .inr hfits
  obtain ⟨s', hs', hmemory, hnum, hvalue, htable⟩ := write_byte hroom x
  refine ⟨s', hs', ?_⟩
  constructor
  case memory => exact hmemory.trans h.memory
  case value =>
    intro b
    have hwritten : (o.put a x).written b = if b = a then some x else o.written b := by
      apply Function.update_apply
    rw [hvalue, Overlay.value, hwritten]
    by_cases hb : b = a
    · rw [hb, Function.update_self, if_pos rfl]
      rfl
    · rw [Function.update_of_ne hb, if_neg hb]
      exact h.value b
  case count =>
    rw [hnum, Overlay.put]
    by_cases htag : pageTag LogPageSize a ∈ o.tags
    · rw [if_pos ((h.table a).mpr htag), Finset.insert_eq_of_mem htag]
      exact h.count
    · have hnone : ¬ (s.getPage a).isSome = true := fun hsome => htag ((h.table a).mp hsome)
      rw [if_neg hnone, Finset.card_insert_of_notMem htag, h.count]
  case table =>
    intro b
    rw [htable, Overlay.put, Finset.mem_insert, Bool.or_eq_true, h.table, decide_eq_true_eq,
      or_comm]

lemma Simulates.write (h : Simulates m s o) (hfits : (o.write a xs).tags.card ≤ MaxPages) :
    Simulates m (s.Write a xs).state (o.write a xs) := by
  rw [Write, Access, transfer_eq_bytewise logPageSize_lt splits_write]
  induction xs generalizing a s o with
  | nil => exact h
  | cons x xs ih =>
    have hput : (o.put a x).tags.card ≤ MaxPages :=
      (Finset.card_le_card (Overlay.tags_subset_write _ _ xs)).trans hfits
    obtain ⟨s', hs', hsim⟩ := h.put hput
    rw [bytewise, hs', Outcome.append_of_none rfl]
    exact ih hsim hfits

lemma Simulates.step (h : Simulates m s o) {op : Op} (hfits : (o.step op).tags.card ≤ MaxPages) :
    Simulates m (s.step op) (o.step op) := by
  cases op with
  | read a buffer =>
    rw [SpecMem.step, read_spec]
    exact h
  | write a buffer => exact h.write hfits
  | clear =>
    rw [SpecMem.step, Clear, h.memory]
    exact simulates_new m

lemma Simulates.run (h : Simulates m s o) {ops : List Op}
    (hfits : ∀ pre ∈ ops.inits, (pre.foldl Overlay.step o).tags.card ≤ MaxPages) :
    Simulates m (ops.foldl SpecMem.step s) (ops.foldl Overlay.step o) := by
  induction ops generalizing s o with
  | nil => exact h
  | cons op ops ih =>
    have hop : (o.step op).tags.card ≤ MaxPages := by
      apply hfits [op]
      rw [List.mem_inits]
      exact ⟨ops, rfl⟩
    apply ih (h.step hop)
    intro pre hpre
    apply hfits (op :: pre)
    rw [List.mem_inits] at hpre ⊢
    exact List.cons_prefix_cons.mpr ⟨rfl, hpre⟩

end Simulation

/-- After any sequence of speculative accesses the memory is unchanged, and a read returns for each
byte the last speculative write since the last clear, or else the byte of the memory. -/
theorem run_isolated (m : Memory) (ops : List Op)
    (hfits : ∀ pre ∈ ops.inits, (pre.foldl Overlay.step {}).tags.card ≤ MaxPages) :
    (ops.foldl step { memory := m }).memory = m ∧
      ∀ a buffer, ((ops.foldl step { memory := m }).Read a buffer).error = none ∧
        ((ops.foldl step { memory := m }).Read a buffer).state.memory = m ∧
        ((ops.foldl step { memory := m }).Read a buffer).buffer =
          (List.range buffer.length).map fun i =>
            (ops.foldl Overlay.step {}).value m (a + BitVec.ofNat 32 i) := by
  have hsim := (simulates_new m).run hfits
  refine ⟨hsim.memory, ?_⟩
  intro a buffer
  rw [read_spec]
  refine ⟨rfl, hsim.memory, ?_⟩
  apply List.map_congr_left
  intro i _
  exact hsim.value _

section Examples

def wrongPath : List Op :=
  [.write 14#32 [1, 2, 3], .write 15#32 [4], .read 14#32 [0, 0], .clear, .write 16#32 [5]]

theorem run_isolated_wrongPath :
    (∀ pre ∈ wrongPath.inits, (pre.foldl Overlay.step {}).tags.card ≤ MaxPages) ∧
      (wrongPath.foldl step { memory := {} }).memory = {} := by
  have hfits : ∀ pre ∈ wrongPath.inits, (pre.foldl Overlay.step {}).tags.card ≤ MaxPages := by
    decide
  exact ⟨hfits, (run_isolated {} wrongPath hfits).1⟩

end Examples

end OISA.SpecMem
